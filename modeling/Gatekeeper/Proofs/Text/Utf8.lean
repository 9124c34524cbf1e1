import Gatekeeper.Text.Utf8

set_option autoImplicit false

/-!
# Decoding undoes encoding

The byte automaton reads the bytes of a character as that character, wherever in a text it stands
(`State.foldl_utf8EncodeChar`), so what `decode` makes of an encoded text is the text
(`decode_encode`).
-/

namespace Gatekeeper.Text.Utf8

/-- The code of a character is below the surrogates or above them. -/
theorem code_cases (c : Char) :
    c.val.toNat < 0xD800 ∨ 0xDFFF < c.val.toNat ∧ c.val.toNat < 0x110000 := c.valid

theorem ofNat_code (c : Char) : Char.ofNat c.val.toNat = c := Char.ofNat_toNat c

/-- A byte below 0x80 stands for the character with its code. -/
theorem code_eq_of_mem {c : Char} {b : UInt8} (member : b ∈ String.utf8EncodeChar c)
    (small : b.toNat < 0x80) : c.val.toNat = b.toNat := by
  have valid := code_cases c
  unfold String.utf8EncodeChar at member
  dsimp only at member
  by_cases one : c.val.toNat ≤ 0x7F
  · rw [if_pos one] at member
    rw [List.mem_singleton.mp member, UInt8.toNat_ofNat']
    omega
  · rw [if_neg one] at member
    split at member
    · simp only [List.mem_cons, List.not_mem_nil, or_false] at member
      rcases member with rfl | rfl <;> rw [UInt8.toNat_ofNat'] at small <;> omega
    · split at member
      · simp only [List.mem_cons, List.not_mem_nil, or_false] at member
        rcases member with rfl | rfl | rfl <;> rw [UInt8.toNat_ofNat'] at small <;> omega
      · simp only [List.mem_cons, List.not_mem_nil, or_false] at member
        rcases member with rfl | rfl | rfl | rfl <;> rw [UInt8.toNat_ofNat'] at small <;> omega

namespace State

/-! ## The first byte of a character -/

theorem start_one {n : Nat} (items : List Item) (small : n < 0x80) :
    start items (UInt8.ofNat n) = { items := .char (Char.ofNat n) :: items } := by
  have same : (UInt8.ofNat n).toNat = n := UInt8.toNat_ofNat_of_lt' (Nat.lt_trans small (by decide))
  simp only [start, same, if_pos small]

theorem start_two {n : Nat} (items : List Item) (least : 2 ≤ n) (small : n < 0x20) :
    start items (UInt8.ofNat (n + 0xC0)) =
      { items, pending := some ⟨n, 1, 1, 0x80, 0xBF⟩ } := by
  have same : (UInt8.ofNat (n + 0xC0)).toNat = n + 0xC0 :=
    UInt8.toNat_ofNat_of_lt' (show n + 0xC0 < 0x100 by omega)
  have bits : (n + 0xC0) % 0x20 = n := by omega
  simp only [start, same, bits, Bool.and_eq_true, decide_eq_true_eq]
  rw [if_neg (by omega), if_pos (by omega)]

/-- After the first byte of three there are bounds for the second: no over-long form, and no
surrogate. -/
theorem start_three {n : Nat} (items : List Item) (small : n < 0x10) :
    start items (UInt8.ofNat (n + 0xE0)) =
      { items,
        pending := some
          ⟨n, 1, 2, if n = 0 then 0xA0 else 0x80, if n = 0xD then 0x9F else 0xBF⟩ } := by
  have same : (UInt8.ofNat (n + 0xE0)).toNat = n + 0xE0 :=
    UInt8.toNat_ofNat_of_lt' (show n + 0xE0 < 0x100 by omega)
  have bits : (n + 0xE0) % 0x10 = n := by omega
  have first : (n + 0xE0 = 0xE0) = (n = 0) := by simp
  have last : (n + 0xE0 = 0xED) = (n = 0xD) := by simp
  simp only [start, same, bits, beq_iff_eq, first, last, Bool.and_eq_true, decide_eq_true_eq]
  rw [if_neg (by omega), if_neg (by omega), if_pos (by omega)]

/-- After the first byte of four there are bounds for the second: no over-long form, and nothing
beyond the last code. -/
theorem start_four {n : Nat} (items : List Item) (small : n ≤ 4) :
    start items (UInt8.ofNat (n + 0xF0)) =
      { items,
        pending := some
          ⟨n, 1, 3, if n = 0 then 0x90 else 0x80, if n = 4 then 0x8F else 0xBF⟩ } := by
  have same : (UInt8.ofNat (n + 0xF0)).toNat = n + 0xF0 :=
    UInt8.toNat_ofNat_of_lt' (show n + 0xF0 < 0x100 by omega)
  have bits : (n + 0xF0) % 0x08 = n := by omega
  have first : (n + 0xF0 = 0xF0) = (n = 0) := by simp
  have last : (n + 0xF0 = 0xF4) = (n = 4) := by simp
  simp only [start, same, bits, beq_iff_eq, first, last, Bool.and_eq_true, decide_eq_true_eq]
  rw [if_neg (by omega), if_neg (by omega), if_neg (by omega), if_pos (by omega)]

/-! ## The other bytes -/

variable {p : Pending} {n : Nat}

/-- A byte that may come next, and after which more are to come. -/
theorem step_more (items : List Item) (small : n < 0x40) (least : p.least.toNat ≤ n + 0x80)
    (greatest : n + 0x80 ≤ p.greatest.toNat) (more : 1 < p.missing) :
    step { items, pending := some p } (UInt8.ofNat (n + 0x80)) =
      { items, pending := some ⟨p.bits * 0x40 + n, p.seen + 1, p.missing - 1, 0x80, 0xBF⟩ } := by
  have same : (UInt8.ofNat (n + 0x80)).toNat = n + 0x80 :=
    UInt8.toNat_ofNat_of_lt' (show n + 0x80 < 0x100 by omega)
  have bits : (n + 0x80) % 0x40 = n := by omega
  simp only [step, UInt8.le_iff_toNat_le, same, bits, Bool.and_eq_true, decide_eq_true_eq]
  rw [if_pos ⟨least, greatest⟩, if_neg (Nat.not_le_of_lt more)]

/-- The last byte of a character. -/
theorem step_last (items : List Item) (small : n < 0x40) (least : p.least.toNat ≤ n + 0x80)
    (greatest : n + 0x80 ≤ p.greatest.toNat) (last : p.missing ≤ 1) :
    step { items, pending := some p } (UInt8.ofNat (n + 0x80)) =
      { items := .char (Char.ofNat (p.bits * 0x40 + n)) :: items } := by
  have same : (UInt8.ofNat (n + 0x80)).toNat = n + 0x80 :=
    UInt8.toNat_ofNat_of_lt' (show n + 0x80 < 0x100 by omega)
  have bits : (n + 0x80) % 0x40 = n := by omega
  simp only [step, UInt8.le_iff_toNat_le, same, bits, Bool.and_eq_true, decide_eq_true_eq]
  rw [if_pos ⟨least, greatest⟩, if_pos last]

/-! ## Characters and texts -/

theorem step_outside (items : List Item) (b : UInt8) : step { items } b = start items b := rfl

/-- The bytes of a character are read as the character. -/
theorem foldl_utf8EncodeChar (items : List Item) (c : Char) :
    (String.utf8EncodeChar c).foldl step { items } = { items := .char c :: items } := by
  have valid := code_cases c
  have whole := ofNat_code c
  unfold String.utf8EncodeChar
  generalize c.val.toNat = v at valid whole
  dsimp only
  -- by the number of bytes; the bits of the code are taken apart and put together again
  by_cases one : v ≤ 0x7F
  · rw [if_pos one]
    exact (start_one items (by omega)).trans (by rw [whole])
  · rw [if_neg one]
    by_cases two : v ≤ 0x7FF
    · rw [if_pos two]
      have bits : v / 64 % 0x20 * 0x40 + v % 0x40 = v := by omega
      simp only [List.foldl_cons, List.foldl_nil]
      rw [step_outside, start_two items (by omega) (by omega),
        step_last items (by omega) (Nat.le_add_left _ _) (by simp; omega) (Nat.le_refl 1), bits,
        whole]
    · rw [if_neg two]
      by_cases three : v ≤ 0xFFFF
      · rw [if_pos three]
        have bits : (v / 4096 % 0x10 * 0x40 + v / 64 % 0x40) * 0x40 + v % 0x40 = v := by omega
        simp only [List.foldl_cons, List.foldl_nil]
        rw [step_outside, start_three items (by omega),
          step_more items (by omega) (by dsimp only; split <;> simp; omega)
            (by dsimp only; split <;> simp <;> omega) (by simp),
          step_last items (by omega) (Nat.le_add_left _ _) (by simp; omega) (Nat.le_refl 1), bits,
          whole]
      · rw [if_neg three]
        have bits : ((v / 262144 % 0x08 * 0x40 + v / 4096 % 0x40) * 0x40 + v / 64 % 0x40) * 0x40 +
            v % 0x40 = v := by omega
        simp only [List.foldl_cons, List.foldl_nil]
        rw [step_outside, start_four items (by omega),
          step_more items (by omega) (by dsimp only; split <;> simp; omega)
            (by dsimp only; split <;> simp <;> omega) (by simp),
          step_more items (by omega) (Nat.le_add_left _ _) (by simp; omega) (by simp),
          step_last items (by omega) (Nat.le_add_left _ _) (by simp; omega) (Nat.le_refl 1), bits,
          whole]

/-- The bytes of a text are read as its characters. -/
theorem foldl_encode (read : List Item) (s : List Char) :
    (encode s).foldl step { items := read } = { items := (s.map .char).reverse ++ read } := by
  induction s generalizing read with
  | nil => rfl
  | cons c s ih =>
      have bytes : encode (c :: s) = String.utf8EncodeChar c ++ encode s := rfl
      rw [bytes, List.foldl_append, foldl_utf8EncodeChar, ih]
      simp

end State

theorem items_encode (s : List Char) : items (encode s) = s.map .char := by
  rw [items, State.foldl_encode]
  simp

theorem collect_map_char (index : Nat) (read s : List Char) :
    collect index read (s.map .char) = .ok (read.reverse ++ s) := by
  induction s generalizing index read with
  | nil => simp [collect]
  | cons c s ih => simp [collect, ih]

/-- **Decoding undoes encoding.** -/
theorem decode_encode (s : List Char) : decode (encode s) = .ok s := by
  rw [decode, items_encode, collect_map_char]
  rfl

end Gatekeeper.Text.Utf8
