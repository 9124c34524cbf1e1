import Gatekeeper.Proofs.Text.Utf8

set_option autoImplicit false

/-!
# What is decoded was encoded

`decode` accepts the encodings of texts and nothing else (`decode_eq_ok_iff`). While the automaton
reads, the bytes that it has read are those of the characters it has reported, and then the
beginning of a character that every byte it would take next goes on with (`Pending.Opens`); a report
of a fault stays.
-/

namespace Gatekeeper.Text.Utf8

/-! ## Open sequences -/

/-- The bytes of an open sequence begin the bytes of a character, whichever of the bytes that may
come next follow them. -/
inductive Pending.Opens : Pending → List UInt8 → Prop
  | last {p : Pending} {read : List UInt8} (one : p.missing ≤ 1)
      (ends : ∀ b, p.least ≤ b → b ≤ p.greatest →
        String.utf8EncodeChar (Char.ofNat (p.bits * 0x40 + b.toNat % 0x40)) = read ++ [b]) :
      Opens p read
  | more {p : Pending} {read : List UInt8} (several : 1 < p.missing)
      (goesOn : ∀ b, p.least ≤ b → b ≤ p.greatest →
        Opens ⟨p.bits * 0x40 + b.toNat % 0x40, p.seen + 1, p.missing - 1, 0x80, 0xBF⟩
          (read ++ [b])) :
      Opens p read

/-- The character with a code has the code. -/
theorem code_ofNat {v : Nat} (valid : v.isValidChar) : (Char.ofNat v).val.toNat = v := by
  rw [Char.ofNat, dif_pos valid]
  rfl

theorem isValidChar_of_lt {v : Nat} (low : v < 0xD800) : v.isValidChar := Or.inl low

theorem isValidChar_of_gt {v : Nat} (high : 0xDFFF < v) (least : v < 0x110000) : v.isValidChar :=
  Or.inr ⟨high, least⟩

theorem byte_eq {n : Nat} {b : UInt8} (same : n = b.toNat) : UInt8.ofNat n = b := by
  rw [same, UInt8.ofNat_toNat]

variable {b : UInt8}

/-- A byte below 0x80 is a character. -/
theorem utf8EncodeChar_one (small : b.toNat < 0x80) :
    String.utf8EncodeChar (Char.ofNat b.toNat) = [b] := by
  unfold String.utf8EncodeChar
  simp only [code_ofNat (isValidChar_of_lt (Nat.lt_trans small (by decide)))]
  rw [if_pos (by omega), byte_eq rfl]

/-- The first byte of two. -/
theorem opens_two (least : 0xC2 ≤ b.toNat) (greatest : b.toNat ≤ 0xDF) :
    Pending.Opens ⟨b.toNat % 0x20, 1, 1, 0x80, 0xBF⟩ [b] := by
  refine .last (Nat.le_refl 1) fun c low high => ?_
  have low : 0x80 ≤ c.toNat := UInt8.le_iff_toNat_le.mp low
  have high : c.toNat ≤ 0xBF := UInt8.le_iff_toNat_le.mp high
  unfold String.utf8EncodeChar
  simp only [code_ofNat (isValidChar_of_lt
    (show b.toNat % 0x20 * 0x40 + c.toNat % 0x40 < 0xD800 by omega))]
  rw [if_neg (by omega), if_pos (by omega), byte_eq (b := b) (by omega),
    byte_eq (b := c) (by omega)]
  rfl

/-- The first two bytes of three. -/
theorem opens_three {c : UInt8} {seen : Nat} (least : 0xE0 ≤ b.toNat) (greatest : b.toNat ≤ 0xEF)
    (low : 0x80 ≤ c.toNat) (high : c.toNat ≤ 0xBF) (long : b.toNat = 0xE0 → 0xA0 ≤ c.toNat)
    (plain : b.toNat = 0xED → c.toNat ≤ 0x9F) :
    Pending.Opens ⟨b.toNat % 0x10 * 0x40 + c.toNat % 0x40, seen, 1, 0x80, 0xBF⟩ [b, c] := by
  refine .last (Nat.le_refl 1) fun d low' high' => ?_
  have low' : 0x80 ≤ d.toNat := UInt8.le_iff_toNat_le.mp low'
  have high' : d.toNat ≤ 0xBF := UInt8.le_iff_toNat_le.mp high'
  have valid : ((b.toNat % 0x10 * 0x40 + c.toNat % 0x40) * 0x40 + d.toNat % 0x40).isValidChar := by
    -- the codes of three bytes are below the surrogates or above them, since 0xED has a bound of
    -- its own
    by_cases before : b.toNat ≤ 0xED
    · exact isValidChar_of_lt (by omega)
    · exact isValidChar_of_gt (by omega) (by omega)
  unfold String.utf8EncodeChar
  simp only [code_ofNat valid]
  rw [if_neg (by omega), if_neg (by omega), if_pos (by omega), byte_eq (b := b) (by omega),
    byte_eq (b := c) (by omega), byte_eq (b := d) (by omega)]
  rfl

/-- The first three bytes of four. -/
theorem opens_four {c d : UInt8} {seen : Nat} (least : 0xF0 ≤ b.toNat) (greatest : b.toNat ≤ 0xF4)
    (low : 0x80 ≤ c.toNat) (high : c.toNat ≤ 0xBF) (long : b.toNat = 0xF0 → 0x90 ≤ c.toNat)
    (within : b.toNat = 0xF4 → c.toNat ≤ 0x8F) (low' : 0x80 ≤ d.toNat) (high' : d.toNat ≤ 0xBF) :
    Pending.Opens ⟨(b.toNat % 0x08 * 0x40 + c.toNat % 0x40) * 0x40 + d.toNat % 0x40, seen, 1, 0x80,
      0xBF⟩ [b, c, d] := by
  refine .last (Nat.le_refl 1) fun e low'' high'' => ?_
  have low'' : 0x80 ≤ e.toNat := UInt8.le_iff_toNat_le.mp low''
  have high'' : e.toNat ≤ 0xBF := UInt8.le_iff_toNat_le.mp high''
  have valid : (((b.toNat % 0x08 * 0x40 + c.toNat % 0x40) * 0x40 + d.toNat % 0x40) * 0x40 +
      e.toNat % 0x40).isValidChar := isValidChar_of_gt (by omega) (by omega)
  unfold String.utf8EncodeChar
  simp only [code_ofNat valid]
  rw [if_neg (by omega), if_neg (by omega), if_neg (by omega), byte_eq (b := b) (by omega),
    byte_eq (b := c) (by omega), byte_eq (b := d) (by omega), byte_eq (b := e) (by omega)]
  rfl

/-! ## The automaton -/

/-- Whether a report is one of a fault. -/
def Item.IsFault : Item → Prop
  | .char _ => False
  | _ => True

/-- The bytes that were read are those of the characters reported and of the open sequence, unless a
fault was reported. -/
def State.Reads (st : State) (read : List UInt8) : Prop :=
  (∃ i ∈ st.items, i.IsFault) ∨
    ∃ s rest, st.items = (s.map .char).reverse ∧ read = encode s ++ rest ∧
      match st.pending with
      | none => rest = []
      | some p => p.Opens rest

namespace State

variable {st : State} {read : List UInt8} {s : List Char} {p : Pending}

theorem reads_char {c : Char} (rest : List UInt8) (bytes : String.utf8EncodeChar c = rest) :
    Reads { items := .char c :: (s.map .char).reverse } (encode s ++ rest) := by
  refine .inr ⟨s ++ [c], [], by simp, ?_, rfl⟩
  rw [List.append_nil, encode, encode, List.flatMap_append, List.flatMap_singleton, bytes]

theorem reads_opens (rest : List UInt8) (opens : p.Opens rest) :
    Reads { items := (s.map .char).reverse, pending := some p } (encode s ++ rest) :=
  .inr ⟨s, rest, rfl, rfl, opens⟩

/-- What was reported stays. -/
theorem items_start (items : List Item) (b : UInt8) : items <:+ (start items b).items := by
  unfold start
  dsimp only
  repeat' split
  all_goals first | exact List.suffix_rfl | exact List.suffix_cons _ _

theorem items_step (st : State) (b : UInt8) : st.items <:+ (st.step b).items := by
  unfold step
  split
  · exact items_start _ _
  · split
    · dsimp only
      split
      · exact List.suffix_cons _ _
      · exact List.suffix_rfl
    · exact (List.suffix_cons _ _).trans (items_start _ _)

/-- The first byte of a sequence. -/
theorem reads_start (s : List Char) (b : UInt8) :
    Reads (start (s.map .char).reverse b) (encode s ++ [b]) := by
  unfold start
  dsimp only
  split
  · next small => exact reads_char [b] (utf8EncodeChar_one small)
  split
  · next two =>
    obtain ⟨least, greatest⟩ : 0xC2 ≤ b.toNat ∧ b.toNat ≤ 0xDF := by simpa using two
    exact reads_opens [b] (opens_two least greatest)
  split
  · next three =>
    obtain ⟨least, greatest⟩ : 0xE0 ≤ b.toNat ∧ b.toNat ≤ 0xEF := by simpa using three
    refine reads_opens [b] (.more (by simp) fun c low high => ?_)
    rw [UInt8.le_iff_toNat_le] at low high
    refine opens_three least greatest ?_ ?_ (fun long => ?_) fun plain => ?_
    · dsimp only at low
      split at low <;> simp at low <;> omega
    · dsimp only at high
      split at high <;> simp at high <;> omega
    · simpa [long] using low
    · simpa [plain] using high
  split
  · next four =>
    obtain ⟨least, greatest⟩ : 0xF0 ≤ b.toNat ∧ b.toNat ≤ 0xF4 := by simpa using four
    refine reads_opens [b] (.more (by simp) fun c low high =>
      .more (by simp) fun d low' high' => ?_)
    rw [UInt8.le_iff_toNat_le] at low high
    refine opens_four least greatest ?_ ?_ (fun long => ?_) (fun within => ?_)
      (UInt8.le_iff_toNat_le.mp low') (UInt8.le_iff_toNat_le.mp high')
    · dsimp only at low
      split at low <;> simp at low <;> omega
    · dsimp only at high
      split at high <;> simp at high <;> omega
    · simpa [long] using low
    · simpa [within] using high
  · exact .inl ⟨.broken 1, List.mem_cons_self, trivial⟩

/-- Every byte is read so. -/
theorem Reads.step (reads : st.Reads read) (b : UInt8) : (st.step b).Reads (read ++ [b]) := by
  rcases reads with ⟨i, member, fault⟩ | ⟨s, rest, reported, rfl, opens⟩
  · exact .inl ⟨i, (items_step st b).subset member, fault⟩
  obtain ⟨items, pending⟩ := st
  obtain rfl : items = (s.map .char).reverse := reported
  cases pending with
  | none =>
      obtain rfl : rest = [] := opens
      rw [List.append_nil]
      exact reads_start s b
  | some p =>
      rw [List.append_assoc]
      by_cases fits : p.least ≤ b ∧ b ≤ p.greatest
      · have taken : (p.least ≤ b && b ≤ p.greatest) = true := by simpa using fits
        simp only [State.step, taken, if_true]
        cases opens with
        | last one ends =>
            rw [if_pos one]
            exact reads_char _ (ends b fits.1 fits.2)
        | more several goesOn =>
            rw [if_neg (Nat.not_le_of_lt several)]
            exact reads_opens _ (goesOn b fits.1 fits.2)
      · -- the sequence is broken, which is reported
        have broken : ¬(p.least ≤ b && b ≤ p.greatest) = true := by simpa using fits
        simp only [State.step, if_neg broken]
        exact .inl ⟨.broken p.seen, (items_start _ _).subset List.mem_cons_self, trivial⟩

theorem reads_foldl (bytes : List UInt8) (reads : st.Reads read) :
    (bytes.foldl State.step st).Reads (read ++ bytes) := by
  induction bytes generalizing st read with
  | nil =>
      rw [List.append_nil]
      exact reads
  | cons b bytes ih =>
      have rest := ih (reads.step b)
      rw [List.append_assoc, List.singleton_append] at rest
      exact rest

end State

/-! ## Decoding -/

/-- What is collected was reported, without a fault. -/
theorem items_of_collect {items : List Item} {index : Nat} {read s : List Char}
    (collected : collect index read items = .ok s) :
    ∃ more, items = more.map .char ∧ s = read.reverse ++ more := by
  induction items generalizing index read with
  | nil =>
      cases collected
      exact ⟨[], rfl, (List.append_nil _).symm⟩
  | cons i items ih =>
      cases i with
      | char c =>
          obtain ⟨more, rfl, rfl⟩ := ih collected
          exact ⟨c :: more, rfl, by simp⟩
      | broken n => cases collected
      | cut n => cases collected

/-- Only encodings are decoded. -/
theorem eq_encode_of_decode {bytes : List UInt8} {s : List Char} (decoded : decode bytes = .ok s) :
    bytes = encode s := by
  obtain ⟨more, reported, same⟩ := items_of_collect decoded
  obtain rfl : s = more := same
  have faultless : ∀ i ∈ items bytes, ¬i.IsFault := by
    rw [reported]
    intro i member
    obtain ⟨c, _, rfl⟩ := List.mem_map.mp member
    exact id
  have start : State.Reads {} [] := .inr ⟨[], [], rfl, rfl, rfl⟩
  have reads := State.reads_foldl bytes start
  rw [List.nil_append] at reads
  unfold items at reported faultless
  generalize bytes.foldl State.step {} = st at reads reported faultless
  obtain ⟨read, pending⟩ := st
  cases pending with
  | some p => exact absurd trivial (faultless (.cut p.seen) (by simp))
  | none =>
      rcases reads with ⟨i, member, fault⟩ | ⟨s', rest, same, rfl, empty⟩
      · exact absurd fault (faultless i (List.mem_reverse.mpr member))
      · obtain rfl : rest = [] := empty
        obtain rfl : read = (s'.map .char).reverse := same
        have chars : s'.map Item.char = s.map Item.char := by simpa using reported
        rw [List.append_nil, (List.map_inj_right fun _ _ => Item.char.inj).mp chars]

/-- **A byte string is decoded if it encodes a text**, and as that text. -/
theorem decode_eq_ok_iff {bytes : List UInt8} {s : List Char} :
    decode bytes = .ok s ↔ bytes = encode s :=
  ⟨eq_encode_of_decode, fun same => same ▸ decode_encode s⟩

end Gatekeeper.Text.Utf8
