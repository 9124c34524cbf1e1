import Mathlib.Data.List.TakeWhile

set_option autoImplicit false

/-!
# Runs

A run of characters of one kind ends where a text goes on with one of another kind. Whether a text
is a run is decided along the text, and not by going through all characters there are.
-/

namespace Gatekeeper.Text

instance (priority := 1100) decidableRun (p : Char → Prop) [DecidablePred p] (s : List Char) :
    Decidable (∀ c ∈ s, p c) :=
  List.decidableBAll p s

instance (priority := 1100) decidableFirst (p : Char → Prop) [DecidablePred p]
    (first : Option Char) : Decidable (∀ c ∈ first, p c) :=
  Option.decidableForallMem first

variable {p : Char → Bool} {s t : List Char}

theorem dropWhile_run (run : ∀ c ∈ s, p c) (stop : ∀ c ∈ t.head?, p c = false) :
    (s ++ t).dropWhile p = t := by
  rw [List.dropWhile_append_of_pos run]
  cases t with
  | nil => rfl
  | cons c t => exact List.dropWhile_cons_of_neg (by simp [stop c rfl])

theorem takeWhile_run (run : ∀ c ∈ s, p c) (stop : ∀ c ∈ t.head?, p c = false) :
    (s ++ t).takeWhile p = s := by
  rw [List.takeWhile_append_of_pos run]
  cases t with
  | nil => rw [List.takeWhile_nil, List.append_nil]
  | cons c t => rw [List.takeWhile_cons_of_neg (by simp [stop c rfl]), List.append_nil]

/-- A text begins with a run of a kind, which may be empty. -/
theorem exists_run (p : Char → Bool) (s : List Char) : ∃ run rest, s = run ++ rest ∧
    (∀ c ∈ run, p c) ∧ ∀ c ∈ rest.head?, p c = false := by
  refine ⟨s.takeWhile p, s.dropWhile p, List.takeWhile_append_dropWhile.symm,
    fun c member => List.mem_takeWhile_imp member, fun c first => ?_⟩
  have kind := List.head?_dropWhile_not p s
  rwa [Option.mem_def.mp first] at kind

/-- A text with separators in it begins with its first part. -/
theorem intercalate_cons {c : Char} (s : List Char) (others : List (List Char)) :
    [c].intercalate (s :: others) = s ++ others.flatMap (c :: ·) := by
  induction others generalizing s with
  | nil => rw [List.intercalate_singleton, List.flatMap_nil, List.append_nil]
  | cons t others ih =>
      rw [List.intercalate_cons_cons, ih, List.flatMap_cons, List.append_assoc]
      rfl

/-- What stands between separators has none in it. -/
theorem not_mem_of_mem_splitOn {c : Char} {s t : List Char} (member : t ∈ s.splitOn c) : c ∉ t := by
  induction s generalizing t with
  | nil =>
      cases List.mem_singleton.mp member
      exact List.not_mem_nil
  | cons d s ih =>
      rw [List.splitOn_cons_eq_if_modifyHead] at member
      obtain ⟨first, others, split⟩ := List.exists_cons_of_ne_nil (List.splitOn_ne_nil c s)
      rw [split] at ih member
      by_cases separator : d = c
      · rw [if_pos (beq_iff_eq.mpr separator)] at member
        rcases List.mem_cons.mp member with rfl | later
        · exact List.not_mem_nil
        · exact ih later
      · rw [if_neg (by simpa using separator), List.modifyHead_cons] at member
        rcases List.mem_cons.mp member with rfl | later
        · exact List.not_mem_cons_of_ne_of_not_mem (Ne.symm separator) (ih List.mem_cons_self)
        · exact ih (List.mem_cons_of_mem _ later)

/-- What stands between separators is a part of the text. -/
theorem subset_of_mem_splitOn {c : Char} {s t : List Char} (member : t ∈ s.splitOn c) : t ⊆ s := by
  obtain ⟨first, others, split⟩ := List.exists_cons_of_ne_nil (List.splitOn_ne_nil c s)
  have whole := @List.intercalate_splitOn _ s _ _ c
  rw [split, intercalate_cons] at whole
  rw [split] at member
  intro d inside
  rw [← whole]
  rcases List.mem_cons.mp member with rfl | later
  · exact List.mem_append_left _ inside
  · exact List.mem_append_right _ (List.mem_flatMap.mpr ⟨t, later, List.mem_cons_of_mem _ inside⟩)

end Gatekeeper.Text
