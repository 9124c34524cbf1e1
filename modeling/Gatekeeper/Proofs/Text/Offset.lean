import Gatekeeper.Proofs.Text.Run
import Gatekeeper.Proofs.Text.Utf8
import Gatekeeper.Text.Offset
import Mathlib.Data.List.Basic

set_option autoImplicit false

/-!
# Offsets between characters

A text has a part between two offsets if and only if both are boundaries and in order
(`slice?_isSome_iff`). A byte below 0x80 is a character of its own, and the bytes of all other
characters are greater, so a search for ASCII characters by their bytes ends at a boundary
(`findIdx_encode`).

A computation on the bytes of a text `Gives` an answer if it comes to an end with it and uses no
offset out of place on the way. What a loop gives is shown by an invariant of its turns and a
measure that gets smaller with each of them (`Gives.loop`).
-/

namespace Gatekeeper.Text

variable {s t before after rest : List Char} {i j : Nat}

/-! ## Lengths -/

theorem encode_append (s t : List Char) : Utf8.encode (s ++ t) = Utf8.encode s ++ Utf8.encode t :=
  List.flatMap_append

theorem encode_cons (c : Char) (s : List Char) :
    Utf8.encode (c :: s) = String.utf8EncodeChar c ++ Utf8.encode s := rfl

@[simp] theorem byteLength_nil : byteLength [] = 0 := rfl

@[simp] theorem byteLength_cons (c : Char) (s : List Char) :
    byteLength (c :: s) = c.utf8Size + byteLength s := by
  rw [byteLength, encode_cons, List.length_append, String.length_utf8EncodeChar]
  rfl

@[simp] theorem byteLength_append (s t : List Char) :
    byteLength (s ++ t) = byteLength s + byteLength t := by
  rw [byteLength, encode_append, List.length_append]
  rfl

theorem take_encode (before after : List Char) :
    (Utf8.encode (before ++ after)).take (byteLength before) = Utf8.encode before := by
  rw [encode_append, byteLength, List.take_left]

theorem drop_encode (before after : List Char) :
    (Utf8.encode (before ++ after)).drop (byteLength before) = Utf8.encode after := by
  rw [encode_append, byteLength, List.drop_left]

theorem byteLength_eq_zero_iff : byteLength s = 0 ↔ s = [] := by
  cases s with
  | nil => simp
  | cons c s =>
      have positive := c.utf8Size_pos
      simp
      omega

theorem byteLength_lt_append (before : List Char) (some_char : s ≠ []) :
    byteLength before < byteLength (before ++ s) := by
  have positive := mt byteLength_eq_zero_iff.mp some_char
  rw [byteLength_append]
  omega

/-! ## Boundaries -/

theorem isBoundary_append (before after : List Char) :
    IsBoundary (before ++ after) (byteLength before) := ⟨before, after, rfl, rfl⟩

theorem IsBoundary.le (boundary : IsBoundary s i) : i ≤ byteLength s := by
  obtain ⟨before, after, rfl, rfl⟩ := boundary
  rw [byteLength_append]
  exact Nat.le_add_right _ _

/-- Of two beginnings of a text the one with fewer bytes is the beginning of the other one. -/
theorem exists_between {before' after' : List Char} (same : before ++ after = before' ++ after')
    (le : byteLength before ≤ byteLength before') : ∃ part, before' = before ++ part := by
  rcases List.append_eq_append_iff.mp same with ⟨part, longer, -⟩ | ⟨part, shorter, -⟩
  · exact ⟨part, longer⟩
  · have none_left : part = [] := by
      rw [shorter, byteLength_append] at le
      exact byteLength_eq_zero_iff.mp (by omega)
    exact ⟨[], by rw [shorter, none_left, List.append_nil, List.append_nil]⟩

/-! ## Parts of a text -/

theorem divide?_append (before after : List Char) :
    divide? (before ++ after) (byteLength before) = some (before, after) := by
  induction before with
  | nil => cases after <;> rfl
  | cons c before ih =>
      obtain ⟨n, size⟩ := Nat.exists_eq_add_one.mpr c.utf8Size_pos
      have total : byteLength (c :: before) = n + byteLength before + 1 := by
        rw [byteLength_cons, size]
        omega
      have left : n + byteLength before + 1 - (n + 1) = byteLength before := by omega
      rw [total, List.cons_append, divide?, size, if_pos (by omega), left, ih]
      rfl

/-- **A text is cut in two at its boundaries** and nowhere else. -/
theorem divide?_eq_some_iff :
    divide? s i = some (before, after) ↔ s = before ++ after ∧ byteLength before = i := by
  constructor
  · intro cut
    fun_induction divide? s i generalizing before with
    | case1 s =>
        cases cut
        exact ⟨rfl, rfl⟩
    | case2 => cases cut
    | case3 c s i fits ih =>
        obtain ⟨⟨b, a⟩, found, same⟩ := Option.map_eq_some_iff.mp cut
        cases same
        obtain ⟨rfl, long⟩ := ih found
        refine ⟨rfl, ?_⟩
        rw [byteLength_cons, long]
        omega
    | case4 => cases cut
  · rintro ⟨rfl, rfl⟩
    exact divide?_append before after

theorem slice?_eq_some_iff : slice? s i j = some t ↔
    ∃ before after, s = before ++ (t ++ after) ∧ byteLength before = i ∧
      byteLength (before ++ t) = j := by
  rw [slice?]
  constructor
  · intro taken
    split at taken
    · cases taken
    · next front after cut =>
      obtain ⟨rfl, rfl⟩ := divide?_eq_some_iff.mp cut
      obtain ⟨⟨before, part⟩, cut', rfl⟩ := Option.map_eq_some_iff.mp taken
      obtain ⟨rfl, rfl⟩ := divide?_eq_some_iff.mp cut'
      exact ⟨before, after, List.append_assoc _ _ _, rfl, rfl⟩
  · rintro ⟨before, after, rfl, rfl, rfl⟩
    rw [← List.append_assoc, divide?_append]
    exact Option.map_eq_some_iff.mpr ⟨(before, t), divide?_append before t, rfl⟩

/-- **There is a part between two boundaries** that are in order, and between no other offsets. -/
theorem slice?_isSome_iff : (slice? s i j).isSome ↔ (Use.slice s i j).InPlace := by
  rw [Option.isSome_iff_exists]
  constructor
  · rintro ⟨t, taken⟩
    obtain ⟨before, after, rfl, rfl, rfl⟩ := slice?_eq_some_iff.mp taken
    refine ⟨by simp, isBoundary_append before _, ?_⟩
    rw [← List.append_assoc]
    exact isBoundary_append (before ++ t) after
  · rintro ⟨le, ⟨before, after, rfl, rfl⟩, ⟨front, behind, same, rfl⟩⟩
    obtain ⟨part, rfl⟩ := exists_between same le
    rw [same, List.append_assoc]
    exact ⟨part, slice?_eq_some_iff.mpr ⟨before, behind, rfl, rfl, rfl⟩⟩

/-- The second byte of two is no boundary. -/
example : slice? "aé".toList 0 2 = none ∧ slice? "aé".toList 1 3 = some ['é'] := by decide

/-- The bytes of a part are the bytes between the offsets. -/
theorem encode_of_slice? (taken : slice? s i j = some t) :
    Utf8.encode t = ((Utf8.encode s).take j).drop i := by
  obtain ⟨before, after, rfl, rfl, rfl⟩ := slice?_eq_some_iff.mp taken
  rw [← List.append_assoc, take_encode, drop_encode]

/-! ## Kinds of bytes -/

/-- **The bytes of a character are of the kind of the character**, if only codes below 0x80 are of
that kind. -/
theorem kind_iff_of_mem (kind : Nat → Prop) (ascii : ∀ n, kind n → n < 0x80) {c : Char} {b : UInt8}
    (member : b ∈ String.utf8EncodeChar c) : kind b.toNat ↔ kind c.toNat := by
  -- a small byte is the code of its character; a great one belongs to a character above all the
  -- kinds
  by_cases small : b.toNat < 0x80
  · rw [← Utf8.code_eq_of_mem member small]
    rfl
  · have large : ¬c.toNat < 0x80 := by
      intro one
      have code : c.val.toNat ≤ 0x7F := Nat.le_of_lt_succ one
      have size : c.utf8Size = 1 := Char.utf8Size_eq_one_iff.mpr (UInt32.le_iff_toNat_le.mpr code)
      rw [String.utf8EncodeChar_eq_singleton size] at member
      rw [List.mem_singleton.mp member, UInt32.toNat_toUInt8] at small
      omega
    exact iff_of_false (fun is => small (ascii _ is)) fun is => large (ascii _ is)

theorem isDigitByte_iff {b : UInt8} : isDigitByte b = true ↔ 48 ≤ b.toNat ∧ b.toNat ≤ 57 := by
  simp [isDigitByte, UInt8.le_iff_toNat_le]

theorem isLetterByte_iff {b : UInt8} : isLetterByte b = true ↔
    (65 ≤ b.toNat ∧ b.toNat ≤ 90) ∨ (97 ≤ b.toNat ∧ b.toNat ≤ 122) := by
  simp [isLetterByte, UInt8.le_iff_toNat_le]

variable {p : UInt8 → Bool} {q : Char → Bool}

/-- The bytes from a character on that are of a kind are those of the characters of the kind. -/
theorem findIdx_encode (same : ∀ c, ∀ b ∈ String.utf8EncodeChar c, p b = q c) (s : List Char) :
    (Utf8.encode s).findIdx (!p ·) = byteLength (s.takeWhile q) := by
  induction s with
  | nil => rfl
  | cons c s ih =>
      rw [encode_cons]
      cases kind : q c with
      | false =>
          obtain ⟨b, bytes, split⟩ :=
            List.exists_cons_of_ne_nil (String.utf8EncodeChar_ne_nil (c := c))
          have first : p b = false := (same c b (split ▸ List.mem_cons_self)).trans kind
          rw [split, List.cons_append, List.findIdx_cons, first,
            List.takeWhile_cons_of_neg (by simp [kind])]
          rfl
      | true =>
          have passed :
              (String.utf8EncodeChar c).findIdx (!p ·) = (String.utf8EncodeChar c).length := by
            rw [List.findIdx_eq_length]
            intro b member
            rw [same c b member, kind]
            rfl
          rw [List.findIdx_append, if_neg (Nat.not_lt.mpr (Nat.le_of_eq passed.symm)), ih,
            List.takeWhile_cons_of_pos kind, byteLength_cons, String.length_utf8EncodeChar]
          exact Nat.add_comm _ _

/-! ## What a computation gives -/

namespace Scan

variable {α β σ : Type}

/-- The computation comes to an end with an answer, and all offsets that it uses are in place. -/
def Gives (p : Scan α) (a : α) : Prop :=
  ∃ uses, p = Part.some (uses, some a) ∧ ∀ use ∈ uses, use.InPlace

/-- A turn of a loop makes progress to an answer: it gives the answer, or it goes on with a state
that has the invariant and a smaller measure. -/
def Progress (turn : σ → Scan (Turn σ α)) (a : α) (inv : σ → Prop) (measure : σ → Nat)
    (s : σ) : Prop :=
  (turn s).Gives (.done a) ∨ ∃ t, (turn s).Gives (.goOn t) ∧ inv t ∧ measure t < measure s

namespace Gives

theorem pure (a : α) : Gives (Pure.pure a) a := ⟨[], rfl, List.forall_mem_nil _⟩

theorem bind {p : Scan α} {f : α → Scan β} {a : α} {b : β} (first : p.Gives a)
    (then_ : (f a).Gives b) : (p >>= f).Gives b := by
  obtain ⟨uses, rfl, inPlace⟩ := first
  obtain ⟨later, comes, inPlace'⟩ := then_
  refine ⟨uses ++ later, ?_, List.forall_mem_append.mpr ⟨inPlace, inPlace'⟩⟩
  refine (Part.bind_some _ _).trans ?_
  change Part.map _ (f a) = _
  rw [comes, Part.map_some]

/-- **A byte is looked at** wherever there is one. -/
theorem byte {b : UInt8} (there : (Utf8.encode s)[i]? = some b) : (Scan.byte s i).Gives b := by
  refine ⟨_, by rw [Scan.byte, there], List.forall_mem_singleton.mpr ?_⟩
  exact (List.getElem?_eq_some_iff.mp there).1

/-- **A search from a boundary ends at a boundary.** -/
theorem findByte (same : ∀ c, ∀ b ∈ String.utf8EncodeChar c, p b = q c) (before rest : List Char) :
    (Scan.findByte (!p ·) (before ++ rest) (byteLength before)).Gives
      (byteLength (before ++ rest.takeWhile q)) := by
  have boundary := isBoundary_append before rest
  refine ⟨[.bytesFrom _ _], ?_, List.forall_mem_singleton.mpr boundary⟩
  rw [Scan.findByte, if_pos boundary.le, drop_encode, findIdx_encode same, byteLength_append]

/-- **A run is found by its bytes**: the first one is of the kind, and the next one that is not is
behind the run. -/
theorem run (same : ∀ c, ∀ b ∈ String.utf8EncodeChar c, p b = q c) (before : List Char)
    {run : List Char} (some_char : run ≠ []) (kind : ∀ c ∈ run, q c)
    (stop : ∀ c ∈ rest.head?, q c = false) :
    ∃ b, p b = true ∧ (Scan.byte (before ++ (run ++ rest)) (byteLength before)).Gives b ∧
      (Scan.findByte (!p ·) (before ++ (run ++ rest)) (byteLength before)).Gives
        (byteLength (before ++ run)) := by
  obtain ⟨c, others, rfl⟩ := List.exists_cons_of_ne_nil some_char
  obtain ⟨b, bytes, split⟩ := List.exists_cons_of_ne_nil (String.utf8EncodeChar_ne_nil (c := c))
  have first : p b = true := by
    rw [same c b (split ▸ List.mem_cons_self)]
    exact kind c List.mem_cons_self
  have found := findByte same before (c :: others ++ rest)
  rw [takeWhile_run kind stop] at found
  refine ⟨b, first, byte ?_, found⟩
  rw [encode_append, byteLength, List.getElem?_append_right (Nat.le_refl _), Nat.sub_self,
    List.cons_append, encode_cons, split]
  rfl

/-- **A part is taken out** between two boundaries. -/
theorem slice (before t after : List Char) :
    (Scan.slice (before ++ (t ++ after)) (byteLength before)
      (byteLength (before ++ t))).Gives t := by
  have taken : slice? (before ++ (t ++ after)) (byteLength before) (byteLength (before ++ t)) =
      some t :=
    slice?_eq_some_iff.mpr ⟨before, after, rfl, rfl, rfl⟩
  refine ⟨_, by rw [Scan.slice, taken], List.forall_mem_singleton.mpr ?_⟩
  exact slice?_isSome_iff.mp (by rw [taken]; rfl)

/-- The part before a boundary. -/
theorem slice_front (before after : List Char) :
    (Scan.slice (before ++ after) 0 (byteLength before)).Gives before := slice [] before after

/-- The part behind a boundary. -/
theorem slice_back (before after : List Char) :
    (Scan.slice (before ++ after) (byteLength before)
      (byteLength (before ++ after))).Gives after := by
  have taken := slice before after []
  rwa [List.append_nil] at taken

/-- From a state with the invariant, and behind uses that are in place, the turns come to the
answer. -/
theorem fix {turn : σ → Scan (Turn σ α)} {a : α} {inv : σ → Prop} {measure : σ → Nat}
    (step : ∀ s, inv s → Progress turn a inv measure s) {s : σ} (holds : inv s) {earlier : List Use}
    (inPlace : ∀ use ∈ earlier, use.InPlace) :
    Gives (PFun.fix (takeTurn turn) (earlier, s)) a := by
  -- by induction on the measure; what was used earlier is carried along
  induction rank : measure s using Nat.strongRecOn generalizing s earlier with
  | _ n ih =>
      rcases step s holds with
        ⟨uses, comes, inPlace'⟩ | ⟨t, ⟨uses, comes, inPlace'⟩, holds', smaller⟩
      · have stops : .inl (earlier ++ uses, some a) ∈ takeTurn turn (earlier, s) := by
          rw [takeTurn, comes, Part.map_some]
          exact Part.mem_some _
        exact ⟨_, Part.eq_some_iff.mpr (PFun.fix_stop stops),
          List.forall_mem_append.mpr ⟨inPlace, inPlace'⟩⟩
      · have goesOn : .inr (earlier ++ uses, t) ∈ takeTurn turn (earlier, s) := by
          rw [takeTurn, comes, Part.map_some]
          exact Part.mem_some _
        rw [PFun.fix_fwd_eq goesOn]
        exact ih (measure t) (rank ▸ smaller) holds'
          (List.forall_mem_append.mpr ⟨inPlace, inPlace'⟩) rfl

/-- **A loop gives an answer** if all its turns, from states with the invariant, make progress to
it. -/
theorem loop {turn : σ → Scan (Turn σ α)} {a : α} {inv : σ → Prop} {measure : σ → Nat}
    (step : ∀ s, inv s → Progress turn a inv measure s) {s : σ} (holds : inv s) :
    Gives (Scan.loop turn s) a := fix step holds (List.forall_mem_nil _)

end Gives

end Scan

end Gatekeeper.Text
