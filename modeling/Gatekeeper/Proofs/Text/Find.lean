import Gatekeeper.Proofs.Text.Blank
import Mathlib.Data.List.TakeWhile

set_option autoImplicit false

/-!
# First occurrences

Where `splitAt?` cuts a text: at the first occurrence of the pattern, and nowhere else
(`splitAt?_eq_some_iff`); `cutAt?` cuts at the first character with a property
(`cutAt?_eq_some_iff`). What is put before a text leaves the first occurrence in it the first one
if the pattern does not occur there and cannot reach over its end (`FirstAt.append`).
-/

namespace Gatekeeper.Text

/-- The pattern occurs in `s` between `before` and `rest`, and nowhere earlier. -/
structure FirstAt (pattern before rest s : List Char) : Prop where
  eq : s = before ++ (pattern ++ rest)
  le : ∀ b r, s = b ++ (pattern ++ r) → before.length ≤ b.length

variable {pattern before rest s : List Char}

theorem FirstAt.cons {c : Char} (first : FirstAt pattern before rest s)
    (not_here : ¬ pattern <+: c :: s) : FirstAt pattern (c :: before) rest (c :: s) where
  eq := by rw [first.eq, List.cons_append]
  le b r split := by
    cases b with
    | nil => exact absurd ⟨r, split.symm⟩ not_here
    | cons d b =>
        have tail : s = b ++ (pattern ++ r) := (List.cons.inj split).2
        exact Nat.succ_le_succ (first.le b r tail)

/-- A first occurrence behind a character stays the first one without it. -/
theorem FirstAt.of_cons {c : Char} (first : FirstAt pattern (c :: before) rest (c :: s)) :
    FirstAt pattern before rest s where
  eq := (List.cons.inj first.eq).2
  le b r split := by
    have longer := first.le (c :: b) r (by rw [split, List.cons_append])
    exact Nat.le_of_succ_le_succ longer

/-- **A text is cut at the first occurrence of the pattern.** -/
theorem splitAt?_eq_some_iff :
    splitAt? pattern s = some (before, rest) ↔ FirstAt pattern before rest s := by
  induction s generalizing before with
  | nil =>
      rw [splitAt?]
      constructor
      · intro cut
        split at cut
        · rename_i empty
          cases cut
          rw [List.isEmpty_iff.mp empty]
          exact ⟨rfl, fun _ _ _ => Nat.zero_le _⟩
        · cases cut
      · intro first
        obtain ⟨rfl, rest_eq⟩ := List.append_eq_nil_iff.mp first.eq.symm
        obtain ⟨rfl, rfl⟩ := List.append_eq_nil_iff.mp rest_eq
        rfl
  | cons c s ih =>
      rw [splitAt?]
      by_cases here : pattern <+: c :: s
      · rw [if_pos (List.isPrefixOf_iff_prefix.mpr here)]
        obtain ⟨rest', whole⟩ := here
        constructor
        · intro cut
          cases cut
          refine ⟨?_, fun _ _ _ => Nat.zero_le _⟩
          rw [← whole, List.nil_append, List.drop_left]
        · intro first
          have none_before : before = [] :=
            List.length_eq_zero_iff.mp (Nat.le_zero.mp (first.le [] rest' whole.symm))
          have same := first.eq
          rw [none_before, List.nil_append] at same
          rw [none_before, same, List.drop_left]
      · rw [if_neg fun found => here (List.isPrefixOf_iff_prefix.mp found)]
        constructor
        · intro cut
          obtain ⟨⟨b, r⟩, found, same⟩ := Option.map_eq_some_iff.mp cut
          cases same
          exact (ih.mp found).cons here
        · intro first
          cases before with
          | nil => exact absurd ⟨rest, first.eq.symm⟩ here
          | cons d b =>
              obtain rfl : c = d := (List.cons.inj first.eq).1
              rw [ih.mpr first.of_cons]
              rfl

/-- **A text is cut at the first character with the property.** -/
theorem cutAt?_eq_some_iff {p : Char → Bool} {after : List Char} :
    cutAt? p s = some (before, after) ↔
      ∃ c, s = before ++ c :: after ∧ p c ∧ ∀ d ∈ before, p d = false := by
  constructor
  · intro cut
    have whole : s.takeWhile (!p ·) ++ s.dropWhile (!p ·) = s := List.takeWhile_append_dropWhile
    have found : s.find? p = (s.dropWhile (!p ·)).head? := s.find?_eq_head?_dropWhile_not p
    rw [cutAt?] at cut
    split at cut
    · cases cut
    · rename_i c after' dropped
      cases cut
      rw [dropped] at whole found
      refine ⟨c, whole.symm, List.find?_some found, ?_⟩
      intro d member
      have passed := List.mem_takeWhile_imp (p := (!p ·)) member
      simpa using passed
  · rintro ⟨c, rfl, at_cut, none_before⟩
    exact cutAt?_append none_before at_cut

/-- A pattern does not begin before its first character does. -/
theorem firstAt_of_head {c : Char} {p : List Char} (absent : c ∉ before) :
    FirstAt (c :: p) before rest (before ++ (c :: p ++ rest)) := by
  induction before with
  | nil => exact ⟨rfl, fun _ _ _ => Nat.zero_le _⟩
  | cons d before ih =>
      obtain ⟨other, absent⟩ := not_or.mp fun found => absent (List.mem_cons.mpr found)
      exact (ih absent).cons fun begins => other (List.cons_prefix_cons.mp begins).1

/-- **The first occurrence in a text is the first one in a longer text**, if the pattern does not
occur in what is put before it and does not contain its last character. -/
theorem FirstAt.append {lead : List Char} (first : FirstAt pattern before rest s)
    (absent : ¬ pattern <:+: lead) (ends : ∀ d ∈ lead.getLast?, d ∉ pattern) :
    FirstAt pattern (lead ++ before) rest (lead ++ s) := by
  induction lead with
  | nil => exact first
  | cons c lead ih =>
      have ends' : ∀ d ∈ lead.getLast?, d ∉ pattern := fun d last => ends d <| by
        rw [List.getLast?_cons, Option.mem_def.mp last]
        rfl
      have later := ih (fun occurs => absent (List.infix_cons occurs)) ends'
      refine later.cons fun begins => ?_
      -- the pattern lies within what is put before, or reaches over its last character
      rcases List.prefix_or_prefix_of_prefix begins (List.prefix_append (c :: lead) s) with
        within | beyond
      · exact absent within.isInfix
      · have last := List.getLast?_eq_some_getLast (List.cons_ne_nil c lead)
        exact ends _ last (beyond.subset (List.getLast_mem (List.cons_ne_nil c lead)))

end Gatekeeper.Text
