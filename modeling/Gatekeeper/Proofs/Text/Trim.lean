import Gatekeeper.Proofs.Text.Blank
import Gatekeeper.Proofs.Text.Run

set_option autoImplicit false

/-!
# What trimming takes off

Trimming takes off blanks and nothing else, and all of those at the ends (`exists_trim`), so it does
not matter which blanks are around a text that is trimmed (`trim_blanks`).
-/

namespace Gatekeeper.Text

/-- Nothing but blanks is taken off the start, and none is left there. -/
theorem exists_trimStart (s : List Char) : ∃ before, s = before ++ trimStart s ∧
    (∀ c ∈ before, isBlank c) ∧ ∀ c ∈ (trimStart s).head?, isBlank c = false := by
  obtain ⟨before, rest, rfl, blank, first⟩ := exists_run isBlank s
  rw [trimStart, dropWhile_run blank first]
  exact ⟨before, rfl, blank, first⟩

/-- Nothing but blanks is taken off the end, and none is left there. -/
theorem exists_trimEnd (s : List Char) : ∃ after, s = trimEnd s ++ after ∧
    (∀ c ∈ after, isBlank c) ∧ ∀ c ∈ (trimEnd s).getLast?, isBlank c = false := by
  obtain ⟨before, parts, blank, first⟩ := exists_trimStart s.reverse
  have reversed : trimEnd s = (trimStart s.reverse).reverse := rfl
  refine ⟨before.reverse, ?_, fun c member => blank c (List.mem_reverse.mp member), ?_⟩
  · rw [reversed, ← List.reverse_append, ← parts, List.reverse_reverse]
  · rwa [reversed, List.getLast?_reverse]

/-- Nothing but blanks is trimmed off, and none is left at the ends. -/
theorem exists_trim (s : List Char) : ∃ before after, s = before ++ (trim s ++ after) ∧
    (∀ c ∈ before, isBlank c) ∧ (∀ c ∈ after, isBlank c) ∧
    (∀ c ∈ (trim s).head?, isBlank c = false) ∧ ∀ c ∈ (trim s).getLast?, isBlank c = false := by
  obtain ⟨before, parts, blankBefore, first⟩ := exists_trimStart s
  obtain ⟨after, parts', blankAfter, last⟩ := exists_trimEnd (trimStart s)
  refine ⟨before, after, ?_, blankBefore, blankAfter, fun c first' => first c ?_, last⟩
  · rw [trim, ← parts', ← parts]
  · have first_char : (trimEnd (trimStart s)).head? = some c := first'
    rw [parts', Option.mem_def, List.head?_append, first_char, Option.some_or]

/-- A text is trimmed to nothing if it is blank. -/
theorem trim_eq_nil_iff {s : List Char} : trim s = [] ↔ ∀ c ∈ s, isBlank c := by
  constructor
  · intro trimmed
    obtain ⟨before, after, parts, blankBefore, blankAfter, -⟩ := exists_trim s
    rw [trimmed, List.nil_append] at parts
    rw [parts]
    exact List.forall_mem_append.mpr ⟨blankBefore, blankAfter⟩
  · intro blank
    have dropped : trimStart s = [] := List.dropWhile_eq_nil_iff.mpr blank
    rw [trim, dropped]
    rfl

/-- **Blanks that are put around a text do not matter** where it is trimmed. -/
theorem trim_blanks (before s after : List Char) (blankBefore : ∀ c ∈ before, isBlank c)
    (blankAfter : ∀ c ∈ after, isBlank c) : trim (before ++ (s ++ after)) = trim s := by
  by_cases empty : trim s = []
  · rw [empty, trim_eq_nil_iff]
    exact List.forall_mem_append.mpr
      ⟨blankBefore, List.forall_mem_append.mpr ⟨trim_eq_nil_iff.mp empty, blankAfter⟩⟩
  · obtain ⟨before', after', parts, blankBefore', blankAfter', first, last⟩ := exists_trim s
    have around :=
      calc before ++ (s ++ after)
        _ = before ++ ((before' ++ (trim s ++ after')) ++ after) := by rw [← parts]
        _ = (before ++ before') ++ (trim s ++ (after' ++ after)) := by
            simp only [List.append_assoc]
    rw [around]
    exact trim_append (List.forall_mem_append.mpr ⟨blankBefore, blankBefore'⟩)
      (List.forall_mem_append.mpr ⟨blankAfter', blankAfter⟩) empty first last

theorem trim_trimStart (s : List Char) : trim (trimStart s) = trim s := by
  obtain ⟨before, parts, blank, -⟩ := exists_trimStart s
  have same := trim_blanks before (trimStart s) [] blank nofun
  rw [List.append_nil, ← parts] at same
  exact same.symm

theorem trim_trimEnd (s : List Char) : trim (trimEnd s) = trim s := by
  obtain ⟨after, parts, blank, -⟩ := exists_trimEnd s
  have same := trim_blanks [] (trimEnd s) after nofun blank
  rw [List.nil_append, ← parts] at same
  exact same.symm

/-- On the two sides of a character that is not blank, a text is trimmed at one end each. -/
theorem trim_append_cons {c : Char} (solid : isBlank c = false) (s t : List Char) :
    trim (s ++ c :: t) = trimStart s ++ c :: trimEnd t := by
  obtain ⟨before, start_eq, blankBefore, first⟩ := exists_trimStart s
  obtain ⟨after, end_eq, blankAfter, last⟩ := exists_trimEnd t
  have parts :=
    calc s ++ c :: t
      _ = (before ++ trimStart s) ++ c :: (trimEnd t ++ after) := by rw [← start_eq, ← end_eq]
      _ = before ++ ((trimStart s ++ c :: trimEnd t) ++ after) := by
          simp only [List.append_assoc, List.cons_append]
  rw [parts]
  refine trim_append blankBefore blankAfter (by simp) (fun d first' => ?_) fun d last' => ?_
  · cases start : trimStart s with
    | nil =>
        rw [start, List.nil_append, List.head?_cons] at first'
        exact Option.some.inj first' ▸ solid
    | cons e rest =>
        rw [start, List.cons_append, List.head?_cons] at first'
        exact first d (start ▸ first')
  · rw [List.getLast?_append, List.getLast?_cons, Option.some_or] at last'
    cases ending : (trimEnd t).getLast? with
    | none =>
        rw [ending] at last'
        exact Option.some.inj last' ▸ solid
    | some e =>
        rw [ending] at last'
        exact last d (ending.trans last')

end Gatekeeper.Text
