import Gatekeeper.Proofs.Text.Find
import Gatekeeper.Server.LaunchSpec
import Mathlib.Data.List.Forall2

set_option autoImplicit false

/-!
# Which documents are shown

The extension of a path is what follows the last dot of its last component, if something stands
before that dot (`Path.extension?_eq_some_iff`). A document is shown if its extension is one of the
configured ones without their leading dots, up to the case of ASCII letters (`Server.Configured`,
`Server.LaunchSpec.handles_iff`). So it does not matter how many dots are put before a configured
extension, or in which case it is written (`Server.LaunchSpec.configured_respelled`).
-/

namespace Gatekeeper.Path

open Text

/-- **The extension of a path** follows the last dot of its last component, unless that dot begins
the component or the path ends at the directory above. -/
theorem extension?_eq_some_iff {path extension : String} : extension? path = some extension ↔
    ∃ name stem, (components path).getLast? = some name ∧ name ≠ ".." ∧
      name.toList = stem ++ '.' :: extension.toList ∧ stem ≠ [] ∧ '.' ∉ extension.toList := by
  constructor
  · intro found
    -- the name is read backwards and cut at its first dot: what comes before the cut is the
    -- extension, and what comes after it is the stem, both reversed
    obtain ⟨name, named, cut⟩ := Option.bind_eq_some_iff.mp found
    obtain ⟨last, up⟩ : (components path).getLast? = some name ∧ name ≠ ".." := by
      unfold fileName? at named
      split at named
      next n last =>
        split at named <;> cases named
        next other => exact ⟨last, fun same => other (by simp [same])⟩
      next => cases named
    split at cut
    · cases cut
    · cases cut
    next after stem some_char parts =>
      cases cut
      obtain ⟨c, whole, at_cut, none_before⟩ := cutAt?_eq_some_iff.mp parts
      rw [List.reverse_eq_iff, List.reverse_append, List.reverse_cons, beq_iff_eq.mp at_cut,
        List.append_assoc, List.singleton_append] at whole
      refine ⟨name, stem.reverse, last, up, ?_, fun empty => some_char ?_, fun dot => ?_⟩
      · rw [whole, String.toList_ofList]
      · exact List.reverse_eq_nil_iff.mp empty
      · rw [String.toList_ofList, List.mem_reverse] at dot
        exact absurd (none_before '.' dot) (by decide)
  · rintro ⟨name, stem, last, up, parts, some_char, absent⟩
    have named : fileName? path = some name := by
      have other : (name == "/" || name == "." || name == "..") = false := by
        simp only [Bool.or_eq_false_iff, beq_eq_false_iff_ne]
        refine ⟨⟨?_, ?_⟩, up⟩ <;> rintro rfl
        · have dot : '.' ∈ "/".toList := parts ▸ by simp
          revert dot
          decide
        · -- nothing stands before the only dot
          have size := congrArg List.length parts
          have positive := List.length_pos_iff.mpr some_char
          simp only [List.length_append, List.length_cons] at size
          have one : ".".toList.length = 1 := rfl
          omega
      simp only [fileName?, last, other, Bool.false_eq_true, if_false]
    obtain ⟨c, stem', reversed⟩ := List.exists_cons_of_ne_nil
      fun empty => some_char (List.reverse_eq_nil_iff.mp empty)
    have absent' : ∀ d ∈ extension.toList.reverse, (d == '.') = false := fun d member =>
      beq_eq_false_iff_ne.mpr fun same => absent (same ▸ List.mem_reverse.mp member)
    have cut : cutAt? (· == '.') name.toList.reverse =
        some (extension.toList.reverse, c :: stem') := by
      rw [parts, List.reverse_append, List.reverse_cons, List.append_assoc, List.singleton_append,
        reversed]
      exact cutAt?_append absent' rfl
    simp only [extension?, named, Option.bind_some, cut, List.reverse_reverse, String.ofList_toList]

end Gatekeeper.Path

namespace Gatekeeper.Server

/-! ## Configured extensions -/

/-- A text without its leading dots. -/
def withoutDots (s : List Char) : List Char := s.dropWhile (· == '.')

/-- The last component of a path has an extension that is configured: what follows the last dot in
it, where something stands before that dot. Of a configured extension the leading dots do not count,
and if nothing else is there it does not count at all. -/
def Configured (extensions : List String) (path : String) : Prop :=
  ∃ name stem extension, (Path.components path).getLast? = some name ∧
    name.toList = stem ++ '.' :: extension ∧ stem ≠ [] ∧ '.' ∉ extension ∧
    ∃ known ∈ extensions, withoutDots known.toList ≠ [] ∧
      LaunchSpec.lowerCase (withoutDots known.toList) = LaunchSpec.lowerCase extension

/-- An extension that is configured in another way: with dots put in front, and with letters in
another case. -/
def Respelled (extension extension' : String) : Prop :=
  ∃ count s, extension'.toList = List.replicate count '.' ++ s ∧
    LaunchSpec.lowerCase s = LaunchSpec.lowerCase extension.toList

theorem toLower_toLower (c : Char) : c.toLower.toLower = c.toLower := by
  unfold Char.toLower
  split
  next upper =>
    rw [dif_neg]
    intro again
    simp only [ge_iff_le, UInt32.le_iff_toNat_le, UInt32.toNat_add] at upper again
    simp at upper again
    omega
  next => rfl

theorem toLower_eq_dot {c : Char} : c.toLower = '.' ↔ c = '.' := by
  unfold Char.toLower
  split
  next upper =>
    simp only [ge_iff_le, UInt32.le_iff_toNat_le] at upper
    constructor
    · intro same
      have code := congrArg (fun c => c.val.toNat) same
      simp only [UInt32.toNat_add] at code
      simp at upper code
      omega
    · rintro rfl
      simp at upper
  next => rfl

namespace LaunchSpec

theorem lowerCase_lowerCase (s : List Char) : lowerCase (lowerCase s) = lowerCase s := by
  rw [lowerCase, lowerCase, List.map_map]
  exact List.map_congr_left fun c _ => toLower_toLower c

theorem lowerCase_eq_nil {s : List Char} : lowerCase s = [] ↔ s = [] := List.map_eq_nil_iff

/-- Dots have no case. -/
theorem lowerCase_withoutDots (s : List Char) :
    lowerCase (withoutDots s) = withoutDots (lowerCase s) := by
  induction s with
  | nil => rfl
  | cons c s ih =>
      by_cases dot : c = '.'
      · rw [dot]
        exact ih
      · have dot' : c.toLower ≠ '.' := fun same => dot (toLower_eq_dot.mp same)
        have kept : withoutDots (c :: s) = c :: s :=
          List.dropWhile_cons_of_neg (by simpa using dot)
        rw [kept, lowerCase, List.map_cons, withoutDots,
          List.dropWhile_cons_of_neg (by simpa using dot')]

variable {spec : LaunchSpec} {extensions extensions' : List String} {path : String}

/-- A document is compared with each configured extension that is more than dots. -/
theorem any_withExtensions (s : List Char) :
    ((spec.withExtensions extensions).extensions.any fun known =>
      lowerCase known.toList == lowerCase s) = true ↔
    ∃ known ∈ extensions, withoutDots known.toList ≠ [] ∧
      lowerCase (withoutDots known.toList) = lowerCase s := by
  have text (known : String) : (normalize known).toList = lowerCase (withoutDots known.toList) :=
    String.toList_ofList
  have counts (known : String) : normalize known ≠ "" ↔ withoutDots known.toList ≠ [] := by
    rw [ne_eq, ← String.toList_inj, text]
    exact not_congr lowerCase_eq_nil
  simp only [withExtensions, List.any_filter, List.any_map, List.any_eq_true, Function.comp_apply,
    Bool.and_eq_true, bne_iff_ne, beq_iff_eq, text, lowerCase_lowerCase, counts]

/-- **A document is shown if its extension is configured.** -/
theorem handles_iff : (spec.withExtensions extensions).handles path = true ↔
    Configured extensions path := by
  have rule : (spec.withExtensions extensions).handles path = true ↔
      ∃ extension, Path.extension? path = some extension ∧
        ∃ known ∈ extensions, withoutDots known.toList ≠ [] ∧
          lowerCase (withoutDots known.toList) = lowerCase extension.toList := by
    rw [handles]
    cases Path.extension? path with
    | none => simp
    | some extension =>
        dsimp only
        rw [any_withExtensions]
        simp
  rw [rule]
  constructor
  · rintro ⟨extension, found, known⟩
    obtain ⟨name, stem, last, -, parts, some_char, absent⟩ := Path.extension?_eq_some_iff.mp found
    exact ⟨name, stem, extension.toList, last, parts, some_char, absent, known⟩
  · rintro ⟨name, stem, extension, last, parts, some_char, absent, known, member, counts, same⟩
    -- the directory above has an empty extension, which is not configured
    have up : name ≠ ".." := by
      rintro rfl
      have empty : extension = [] := by
        cases stem with
        | nil => exact absurd rfl some_char
        | cons c stem =>
            cases stem with
            | nil => exact (List.cons.inj (List.cons.inj parts).2).2.symm
            | cons d stem =>
                have size := congrArg List.length parts
                have two : "..".toList.length = 2 := rfl
                simp only [List.length_append, List.length_cons] at size
                omega
      rw [empty] at same
      exact counts (lowerCase_eq_nil.mp same)
    refine ⟨String.ofList extension, Path.extension?_eq_some_iff.mpr ⟨name, stem, last, up, ?_⟩,
      known, member, counts, ?_⟩
    · rw [String.toList_ofList]
      exact ⟨parts, some_char, absent⟩
    · rw [same, String.toList_ofList]

/-- Put in another way, an extension is the same one. -/
theorem lowerCase_withoutDots_respelled {extension extension' : String}
    (same : Respelled extension extension') :
    lowerCase (withoutDots extension'.toList) = lowerCase (withoutDots extension.toList) := by
  obtain ⟨count, s, text, recased⟩ := same
  have dots : withoutDots (List.replicate count '.' ++ s) = withoutDots s :=
    List.dropWhile_append_of_pos fun c member => by simp [List.eq_of_mem_replicate member]
  rw [text, dots, lowerCase_withoutDots, recased, lowerCase_withoutDots]

/-- **It does not matter how the extensions are spelled.** -/
theorem configured_respelled (same : List.Forall₂ Respelled extensions extensions') :
    Configured extensions' path ↔ Configured extensions path := by
  have known_iff (s : List Char) :
      (∃ known ∈ extensions', withoutDots known.toList ≠ [] ∧
        lowerCase (withoutDots known.toList) = lowerCase s) ↔
      ∃ known ∈ extensions, withoutDots known.toList ≠ [] ∧
        lowerCase (withoutDots known.toList) = lowerCase s := by
    induction same with
    | nil => rfl
    | @cons extension extension' _ _ first _ ih =>
        have text := lowerCase_withoutDots_respelled first
        have counts : withoutDots extension'.toList ≠ [] ↔ withoutDots extension.toList ≠ [] := by
          rw [ne_eq, ← lowerCase_eq_nil, text, lowerCase_eq_nil]
        simp only [List.exists_mem_cons_iff, ih, text, counts]
  simp only [Configured, known_iff]

end LaunchSpec

end Gatekeeper.Server
