import Gatekeeper.Proofs.Text.Run
import Gatekeeper.Text.Blank
import Gatekeeper.Text.Decimal
import Mathlib.Data.List.Basic

set_option autoImplicit false

/-!
# Reading undoes writing, for whole numbers

The decimal digits of a number are read as the number (`valueOf_writeNat`), and by the reader for
numbers that fit 64 bits if it fits (`readNat64?_writeNat`). What is read as such a number is a run
of digits with a value that fits (`IsNumber`). Runs of one length are in the order of their values,
whether they fit or not (`compareLex_digits`).
-/

namespace Gatekeeper.Text

open Decimal (tenTo)

theorem isDigit_eq (c : Char) : isDigit c = c.isDigit := rfl

theorem isDigit_iff {c : Char} : isDigit c = true ↔ 48 ≤ c.toNat ∧ c.toNat ≤ 57 := by
  rw [isDigit_eq]
  exact Char.isDigit_iff_toNat

theorem isBlank_eq_false_of_isDigit {c : Char} (digit : isDigit c) : isBlank c = false := by
  have code := isDigit_iff.mp digit
  simp [isBlank]
  omega

theorem isDigit_of_mem_writeNat {n : Nat} {c : Char} (written : c ∈ writeNat n) : isDigit c := by
  rw [isDigit_eq]
  exact Nat.isDigit_of_mem_toDigits (by decide) (by decide) written

theorem writeNat_ne_nil (n : Nat) : writeNat n ≠ [] := Nat.toDigits_ne_nil

/-- On digits the value is that of the library. -/
theorem valueOf_eq_ofDigitChars {s : List Char} (digits : ∀ c ∈ s, isDigit c) :
    valueOf 10 s = Nat.ofDigitChars 10 s 0 := by
  rw [valueOf, Nat.ofDigitChars_eq_foldl]
  refine List.foldl_ext _ _ _ fun n c member => ?_
  rw [digitValue, if_pos (digits c member), Nat.mul_comm]

theorem valueOf_cons {c : Char} {s : List Char} (digits : ∀ d ∈ c :: s, isDigit d) :
    valueOf 10 (c :: s) = tenTo s.length * (c.toNat - '0'.toNat) + valueOf 10 s := by
  rw [valueOf_eq_ofDigitChars digits, Nat.ofDigitChars_cons, Nat.mul_zero, Nat.zero_add,
    Nat.ofDigitChars_eq_ofDigitChars_zero,
    valueOf_eq_ofDigitChars fun d member => digits d (List.mem_cons_of_mem _ member)]
  rfl

theorem valueOf_lt {s : List Char} (digits : ∀ c ∈ s, isDigit c) :
    valueOf 10 s < tenTo s.length := by
  induction s with
  | nil => exact Nat.one_pos
  | cons c s ih =>
      have later := ih fun d member => digits d (List.mem_cons_of_mem _ member)
      have code := isDigit_iff.mp (digits c List.mem_cons_self)
      have nine : c.toNat - '0'.toNat ≤ 9 := Nat.sub_le_of_le_add code.2
      have scaled := Nat.mul_le_mul_left (tenTo s.length) nine
      have longer : tenTo (c :: s).length = tenTo s.length * 10 := rfl
      rw [valueOf_cons digits, longer]
      omega

/-- Digits are in the order of their values. -/
theorem compare_digits {c d : Char} (digit : isDigit c) (digit' : isDigit d) :
    Ord.compare c d = Ord.compare (c.toNat - '0'.toNat) (d.toNat - '0'.toNat) := by
  have code := isDigit_iff.mp digit
  have code' := isDigit_iff.mp digit'
  have zero : '0'.toNat = 48 := rfl
  have less : c < d ↔ c.toNat - '0'.toNat < d.toNat - '0'.toNat := by
    rw [Char.lt_def, UInt32.lt_iff_toNat_lt, zero]
    change c.toNat < d.toNat ↔ _
    omega
  have equal : c = d ↔ c.toNat - '0'.toNat = d.toNat - '0'.toNat := by
    rw [← Char.toNat_inj, zero]
    omega
  change compareOfLessAndEq c d = compareOfLessAndEq _ _
  simp only [compareOfLessAndEq, less, equal]

/-- Of two numbers in a positional system the leading digits decide, and then what is behind
them. -/
theorem compare_leading {a b k v w : Nat} (small : v < k) (small' : w < k) :
    (Ord.compare a b).then (Ord.compare v w) = Ord.compare (k * a + v) (k * b + w) := by
  -- a greater digit counts more than all that can be behind the smaller one
  have next {x y : Nat} (less : x < y) : k * x + k ≤ k * y := Nat.mul_le_mul_left k less
  rcases Nat.lt_trichotomy a b with less | rfl | greater
  · have above := next less
    rw [Nat.compare_eq_lt.mpr less, Ordering.lt_then, eq_comm, Nat.compare_eq_lt]
    omega
  · rw [Nat.compare_eq_eq.mpr rfl, Ordering.eq_then]
    simp only [compare, compareOfLessAndEq, Nat.add_lt_add_iff_left, Nat.add_left_cancel_iff]
  · have below := next greater
    rw [Nat.compare_eq_gt.mpr greater, Ordering.gt_then, eq_comm, Nat.compare_eq_gt]
    omega

/-- **Digits of one length are in the order of their values.** -/
theorem compareLex_digits {s t : List Char} (digits : ∀ c ∈ s, isDigit c)
    (digits' : ∀ c ∈ t, isDigit c) (long : s.length = t.length) :
    List.compareLex Ord.compare s t = Ord.compare (valueOf 10 s) (valueOf 10 t) := by
  induction s generalizing t with
  | nil =>
      obtain rfl : t = [] := List.length_eq_zero_iff.mp long.symm
      rfl
  | cons c s ih =>
      obtain ⟨d, t, rfl⟩ := List.exists_cons_of_length_eq_add_one long.symm
      have long' : s.length = t.length := Nat.succ.inj long
      have later : ∀ e ∈ s, isDigit e := fun e member => digits e (List.mem_cons_of_mem _ member)
      have later' : ∀ e ∈ t, isDigit e := fun e member => digits' e (List.mem_cons_of_mem _ member)
      rw [List.compareLex_cons_cons, ih later later' long', valueOf_cons digits,
        valueOf_cons digits', long',
        compare_digits (digits c List.mem_cons_self) (digits' d List.mem_cons_self)]
      exact compare_leading (long' ▸ valueOf_lt later) (valueOf_lt later')

/-- **The digits of a number are read as the number.** -/
theorem valueOf_writeNat (n : Nat) : valueOf 10 (writeNat n) = n := by
  rw [valueOf_eq_ofDigitChars fun c written => isDigit_of_mem_writeNat written]
  exact Nat.ofDigitChars_ten_toDigits

/-- A run of decimal digits with a value that fits 64 bits. -/
structure IsNumber (s : List Char) : Prop where
  some_digit : s ≠ []
  digits : ∀ c ∈ s, isDigit c
  fits : valueOf 10 s < word

instance (s : List Char) : Decidable (IsNumber s) :=
  decidable_of_iff (s ≠ [] ∧ (∀ c ∈ s, isDigit c) ∧ valueOf 10 s < word)
    ⟨fun ⟨some_digit, digits, fits⟩ => ⟨some_digit, digits, fits⟩,
      fun number => ⟨number.some_digit, number.digits, number.fits⟩⟩

theorem IsNumber.digits64? {s : List Char} (number : IsNumber s) :
    digits64? s = some (valueOf 10 s) := by
  have some_digit : s.isEmpty = false := by simpa using number.some_digit
  have all_digits : s.all isDigit = true := List.all_eq_true.mpr number.digits
  rw [Text.digits64?, some_digit, all_digits, if_pos number.fits]
  rfl

theorem isNumber_writeNat {n : Nat} (fits : n < word) : IsNumber (writeNat n) :=
  ⟨writeNat_ne_nil n, fun _ written => isDigit_of_mem_writeNat written, by rwa [valueOf_writeNat]⟩

theorem digits64?_writeNat {n : Nat} (fits : n < word) : digits64? (writeNat n) = some n := by
  rw [(isNumber_writeNat fits).digits64?, valueOf_writeNat]

/-- What does not start with a digit is no number. -/
theorem digits64?_eq_none {s : List Char} (first : ∀ c ∈ s.head?, isDigit c = false) :
    digits64? s = none := by
  cases s with
  | nil => rfl
  | cons c s => simp [digits64?, first c rfl]

/-- Nor is it one with a sign, if it does not start with a plus either. -/
theorem readNat64?_eq_none {s : List Char} (first : ∀ c ∈ s.head?, isDigit c = false)
    (noPlus : ∀ c ∈ s.head?, c ≠ '+') : readNat64? s = none := by
  unfold readNat64?
  split
  · exact absurd rfl (noPlus '+' rfl)
  · exact digits64?_eq_none first

/-- Digits are read as they are: there is no sign in front. -/
theorem readNat64?_digits {s : List Char} (digits : ∀ c ∈ s, isDigit c) :
    readNat64? s = digits64? s := by
  unfold readNat64?
  split
  · cases digits '+' List.mem_cons_self
  · rfl

/-- What is written has no sign. -/
theorem readNat64?_writeNat {n : Nat} (fits : n < word) : readNat64? (writeNat n) = some n := by
  rw [readNat64?_digits fun c written => isDigit_of_mem_writeNat written, digits64?_writeNat fits]

end Gatekeeper.Text
