set_option autoImplicit false

/-!
# Finding and splitting

Searching a text. `splitAt?` cuts a text at the first occurrence of a pattern, `cutAt?` at the
first character with a property.
-/

namespace Gatekeeper.Text

/-- The text before and after the first occurrence of `pattern` in `s`. -/
def splitAt? (pattern : List Char) : List Char → Option (List Char × List Char)
  | [] => if pattern.isEmpty then some ([], []) else none
  | c :: r =>
    if pattern.isPrefixOf (c :: r) then some ([], (c :: r).drop pattern.length)
    else (splitAt? pattern r).map fun (before, after) => (c :: before, after)

/-- Whether `pattern` occurs in `s`. -/
def occursIn (pattern s : List Char) : Bool := (splitAt? pattern s).isSome

/-- The text before and after the first character of `s` that satisfies `p`. -/
def cutAt? (p : Char → Bool) (s : List Char) : Option (List Char × List Char) :=
  match s.dropWhile (!p ·) with
  | [] => none
  | _ :: after => some (s.takeWhile (!p ·), after)

/-- The parts of `s` on both sides of the pattern make up `s`. -/
theorem eq_append_of_splitAt? {pattern s before after : List Char}
    (h : splitAt? pattern s = some (before, after)) : s = before ++ pattern ++ after := by
  induction s generalizing before after with
  | nil =>
    simp only [splitAt?] at h
    split at h
    · simp_all
    · simp at h
  | cons c r ih =>
    simp only [splitAt?] at h
    split at h
    · rename_i hp
      obtain ⟨rfl, rfl⟩ : [] = before ∧ (c :: r).drop pattern.length = after := by simpa using h
      obtain ⟨t, ht⟩ := List.isPrefixOf_iff_prefix.1 hp
      rw [← ht]
      simp
    · obtain ⟨⟨b, a⟩, hs, hb⟩ := Option.map_eq_some_iff.1 h
      obtain ⟨rfl, rfl⟩ : c :: b = before ∧ a = after := by simpa using hb
      simp [ih hs]

end Gatekeeper.Text
