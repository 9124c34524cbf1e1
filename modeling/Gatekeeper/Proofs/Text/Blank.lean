import Gatekeeper.Proofs.Text.Run
import Gatekeeper.Text.Blank
import Gatekeeper.Text.Find

set_option autoImplicit false

/-!
# Trimming, splitting and searching texts

What is trimmed off a text with blanks around it, and where a text is cut that has the separator
once. The words of a text are the pieces between its blanks (`splits_iff`), and what occurs in a
text is a part of it (`occursIn_iff`).
-/

namespace Gatekeeper.Text

theorem dropEndWhile_append {p : Char → Bool} {s t : List Char} (ending : ∀ c ∈ t, p c)
    (last : ∀ c ∈ s.getLast?, p c = false) : dropEndWhile p (s ++ t) = s := by
  have all : ∀ c ∈ t.reverse, p c := fun c member => ending c (List.mem_reverse.mp member)
  rw [dropEndWhile, List.reverse_append, List.dropWhile_append_of_pos all]
  cases reversed : s.reverse with
  | nil => rw [List.dropWhile_nil, List.reverse_nil, List.reverse_eq_nil_iff.mp reversed]
  | cons c rest =>
      have solid : p c = false := last c (by rw [← List.head?_reverse, reversed]; rfl)
      rw [List.dropWhile_cons_of_neg (by simp [solid]), ← reversed, List.reverse_reverse]

theorem trimStart_append {s t : List Char} (blank : ∀ c ∈ s, isBlank c)
    (first : ∀ c ∈ t.head?, isBlank c = false) : trimStart (s ++ t) = t :=
  dropWhile_run blank first

/-- **The blanks around a text are trimmed off**, if there are none at its own ends. -/
theorem trim_append {before s after : List Char} (blankBefore : ∀ c ∈ before, isBlank c)
    (blankAfter : ∀ c ∈ after, isBlank c) (some_char : s ≠ [])
    (first : ∀ c ∈ s.head?, isBlank c = false) (last : ∀ c ∈ s.getLast?, isBlank c = false) :
    trim (before ++ (s ++ after)) = s := by
  have first' : ∀ c ∈ (s ++ after).head?, isBlank c = false := by
    intro c member
    rw [List.head?_append, Option.or_of_isSome (by simpa using some_char)] at member
    exact first c member
  rw [trim, trimStart_append blankBefore first', trimEnd, dropEndWhile_append blankAfter last]

/-- A text is cut at the first character with the property. -/
theorem cutAt?_append {p : Char → Bool} {before after : List Char} {c : Char}
    (none_before : ∀ c ∈ before, p c = false) (at_cut : p c) :
    cutAt? p (before ++ c :: after) = some (before, after) := by
  have passed : ∀ c ∈ before, !p c := fun c member => by simp [none_before c member]
  have stop : ∀ d ∈ (c :: after).head?, (!p d) = false := fun d first => by
    rw [← Option.some.inj first, at_cut, Bool.not_true]
  rw [cutAt?, dropWhile_run passed stop, takeWhile_run passed stop]

/-! ## Words -/

/-- The text consists of the words, with blanks around and between them. -/
inductive Splits : List Char → List (List Char) → Prop
  | blanks {s : List Char} (blank : ∀ c ∈ s, isBlank c) : Splits s []
  | word {before w after : List Char} {ws : List (List Char)} (blank : ∀ c ∈ before, isBlank c)
      (some_char : w ≠ []) (solid : ∀ c ∈ w, isBlank c = false)
      (ends : ∀ c ∈ after.head?, isBlank c) (rest : Splits after ws) :
      Splits (before ++ (w ++ after)) (w :: ws)

/-- A blank separates words. -/
theorem words_append_blank {c : Char} (blank : isBlank c) (s t : List Char) :
    words (s ++ c :: t) = words s ++ words t := by
  rw [words, List.splitOnP_append_cons s t blank, List.filter_append]
  rfl

theorem words_nil : words [] = [] := by
  rw [words, List.splitOnP_nil]
  rfl

theorem words_cons_blank {c : Char} (blank : isBlank c) (s : List Char) :
    words (c :: s) = words s := by
  have split := words_append_blank blank [] s
  rwa [words_nil, List.nil_append, List.nil_append] at split

theorem words_blanks {before : List Char} (blank : ∀ c ∈ before, isBlank c) (s : List Char) :
    words (before ++ s) = words s := by
  induction before with
  | nil => rfl
  | cons c before ih =>
      rw [List.cons_append, words_cons_blank (blank c List.mem_cons_self)]
      exact ih fun d member => blank d (List.mem_cons_of_mem _ member)

theorem words_solid {w : List Char} (some_char : w ≠ []) (solid : ∀ c ∈ w, isBlank c = false) :
    words w = [w] := by
  rw [words, List.splitOnP_eq_singleton solid]
  simp [some_char]

theorem words_eq_of_splits {s : List Char} {ws : List (List Char)} (split : Splits s ws) :
    words s = ws := by
  induction split with
  | blanks blank =>
      have dropped := words_blanks blank []
      rwa [List.append_nil, words_nil] at dropped
  | @word before w after ws blank some_char solid ends rest ih =>
      rw [words_blanks blank]
      cases after with
      | nil =>
          rw [words_nil] at ih
          rw [List.append_nil, words_solid some_char solid, ← ih]
      | cons c after =>
          -- the blank after the word ends it, and belongs to no word
          have blank' : isBlank c := ends c rfl
          rw [words_cons_blank blank'] at ih
          rw [words_append_blank blank', words_solid some_char solid, ih]
          rfl

theorem Splits.cons_blank {c : Char} {s : List Char} {ws : List (List Char)} (blank : isBlank c)
    (split : Splits s ws) : Splits (c :: s) ws := by
  cases split with
  | blanks all => exact .blanks (List.forall_mem_cons.mpr ⟨blank, all⟩)
  | word all some_char solid ends rest =>
      exact .word (List.forall_mem_cons.mpr ⟨blank, all⟩) some_char solid ends rest

/-- A character that is not blank begins a word, or goes in front of the first one. -/
theorem Splits.cons_solid {c : Char} {s : List Char} {ws : List (List Char)}
    (solid : isBlank c = false) (split : Splits s ws) : ∃ ws', Splits (c :: s) ws' := by
  have alone : ∀ d ∈ [c], isBlank d = false := by
    intro d member
    rwa [List.mem_singleton.mp member]
  cases split with
  | blanks all =>
      have ends : ∀ d ∈ s.head?, isBlank d := fun d first => all d (List.mem_of_mem_head? first)
      exact ⟨_, @word [] [c] s [] nofun nofun alone ends (.blanks all)⟩
  | @word before w after ws all some_char within ends rest =>
      cases before with
      | nil =>
          exact ⟨_, @word [] (c :: w) after ws nofun nofun
            (List.forall_mem_cons.mpr ⟨solid, within⟩) ends rest⟩
      | cons b before =>
          have ends' : ∀ d ∈ (b :: before ++ (w ++ after)).head?, isBlank d := by
            intro d first
            cases first
            exact all b List.mem_cons_self
          exact ⟨_, @word [] [c] _ _ nofun nofun alone ends'
            (.word all some_char within ends rest)⟩

/-- **A text splits into its words, and in no other way.** -/
theorem splits_iff {s : List Char} {ws : List (List Char)} : Splits s ws ↔ words s = ws := by
  constructor
  · exact words_eq_of_splits
  · rintro rfl
    have splits : ∃ ws, Splits s ws := by
      induction s with
      | nil => exact ⟨[], .blanks nofun⟩
      | cons c s ih =>
          obtain ⟨ws, split⟩ := ih
          cases kind : isBlank c with
          | true => exact ⟨ws, split.cons_blank kind⟩
          | false => exact split.cons_solid kind
    obtain ⟨ws, split⟩ := splits
    rwa [words_eq_of_splits split]

/-! ## Searching -/

/-- A pattern between two texts occurs. -/
theorem occursIn_append (before pattern after : List Char) :
    occursIn pattern (before ++ (pattern ++ after)) = true := by
  rw [occursIn, Option.isSome_iff_ne_none]
  induction before with
  | nil =>
      intro missing
      have first : pattern.isPrefixOf (pattern ++ after) = true :=
        List.isPrefixOf_iff_prefix.mpr (List.prefix_append _ _)
      rw [List.nil_append] at missing
      cases text : pattern ++ after with
      | nil =>
          rw [text, splitAt?, if_pos (List.isEmpty_iff.mpr (List.append_eq_nil_iff.mp text).1)]
            at missing
          cases missing
      | cons c rest =>
          rw [text, splitAt?, ← text, if_pos first] at missing
          cases missing
  | cons c before ih =>
      rw [List.cons_append, splitAt?]
      split
      · intro missing
        cases missing
      · rw [ne_eq, Option.map_eq_none_iff]
        exact ih

/-- **What occurs in a text is a part of it.** -/
theorem occursIn_iff {pattern s : List Char} : occursIn pattern s = true ↔ pattern <:+: s := by
  constructor
  · intro found
    obtain ⟨⟨before, after⟩, split⟩ := Option.isSome_iff_exists.mp found
    exact ⟨before, after, (eq_append_of_splitAt? split).symm⟩
  · rintro ⟨before, after, rfl⟩
    rw [List.append_assoc]
    exact occursIn_append before pattern after

end Gatekeeper.Text
