import Gatekeeper.Proofs.Version.Numeral

set_option autoImplicit false

/-!
# The runs of a tag

A run of a tag is all digits or free of digits, and there is no separator in it (`IsRun`). A tag
consists of separators and of runs, each of which ends where the next character is a separator or of
the other kind (`Arrangement`). So the runs that are compared are the maximal ones (`IsMaximalRun`),
each at its place, and nothing but separators is left out of them.

Main statement: `Arrangement.exists_place`.
-/

namespace Gatekeeper.Version

open Text

variable {c : Char} {kind : Bool} {before run after rest tag lead : List Char}
  {found : List (List Char)}

/-! ## What a run stands for -/

/-- A run is a word, or the number that its digits are. -/
theorem ofRun_eq (run : List Char) :
    Segment.ofRun run = .word run ∨
      IsNumber run ∧ Segment.ofRun run = .number (valueOf 10 run) := by
  by_cases number : IsNumber run
  · rw [Segment.ofRun, number.digits64?]
    exact .inr ⟨number, rfl⟩
  · have no_number : digits64? run = none := by
      rw [digits64?]
      split
      · rfl
      · next digits =>
        simp only [Bool.or_eq_true, List.isEmpty_iff, Bool.not_eq_true', not_or, Bool.not_eq_false,
          List.all_eq_true] at digits
        exact if_neg fun fits => number ⟨digits.1, digits.2, fits⟩
    rw [Segment.ofRun, no_number]
    exact .inl rfl

/-! ## Splitting off a run -/

/-- A run of one kind is the first one if what follows begins with the other kind. -/
theorem runs_append (some_char : run ≠ []) (all : ∀ c ∈ run, isDigit c = kind)
    (stop : ∀ c ∈ rest.head?, isDigit c ≠ kind) : runs (run ++ rest) = run :: runs rest := by
  have apart : ∀ a ∈ run.getLast?, ∀ b ∈ rest.head?, (isDigit a == isDigit b) = false := by
    intro a last b first
    rw [all a (List.mem_of_mem_getLast? last)]
    exact beq_eq_false_iff_ne.mpr (stop b first).symm
  have split : runs (run ++ rest) = runs run ++ runs rest := List.splitBy_append apart
  rw [split, runs_of_kind some_char all]
  rfl

/-- What has no separator in it belongs to the first piece. -/
theorem splitOnP_append (solid : ∀ c ∈ lead, isSeparator c = false) (rest : List Char) :
    (lead ++ rest).splitOnP isSeparator = (rest.splitOnP isSeparator).modifyHead (lead ++ ·) := by
  induction lead with
  | nil =>
      obtain ⟨piece, pieces, split⟩ :=
        List.exists_cons_of_ne_nil (List.splitOnP_ne_nil isSeparator rest)
      rw [List.nil_append, split]
      rfl
  | cons d lead ih =>
      have other : ¬isSeparator d = true := by simp [solid d List.mem_cons_self]
      rw [List.cons_append, List.splitOnP_cons_eq_if_modifyHead, if_neg other,
        ih fun e member => solid e (List.mem_cons_of_mem _ member), List.modifyHead_modifyHead]
      rfl

theorem tagRuns_separator (separator : isSeparator c) : tagRuns (c :: tag) = tagRuns tag := by
  rw [tagRuns, List.splitOnP_cons_eq_if_modifyHead, if_pos separator, List.flatMap_cons]
  rfl

/-! ## Runs and what stands next to them -/

/-- A run: there is a character, none is a separator, and all of them are digits or none is. -/
structure IsRun (s : List Char) : Prop where
  some_char : s ≠ []
  solid : ∀ c ∈ s, isSeparator c = false
  uniform : (∀ c ∈ s, isDigit c) ∨ ∀ c ∈ s, isDigit c = false

/-- A run between two texts that is not a part of a longer one. -/
structure IsMaximalRun (before run after : List Char) : Prop where
  isRun : IsRun run
  maximal : ∀ left right, left <:+ before → right <+: after → IsRun (left ++ run ++ right) →
    left = [] ∧ right = []

/-- A run with its kind, and at both ends of it a separator, a character of the other kind, or
nothing. -/
structure Bounded (kind : Bool) (before run after : List Char) : Prop where
  some_char : run ≠ []
  solid : ∀ c ∈ run, isSeparator c = false
  all : ∀ c ∈ run, isDigit c = kind
  left : ∀ c ∈ before.getLast?, isSeparator c ∨ isDigit c ≠ kind
  right : ∀ c ∈ after.head?, isSeparator c ∨ isDigit c ≠ kind

theorem IsRun.kind_eq {s : List Char} {d : Char} (isRun : IsRun s) (first : c ∈ s)
    (second : d ∈ s) : isDigit c = isDigit d := by
  rcases isRun.uniform with digits | others
  · rw [digits c first, digits d second]
  · rw [others c first, others d second]

namespace Bounded

variable (bounded : Bounded kind before run after)

include bounded

theorem isRun : IsRun run where
  some_char := bounded.some_char
  solid := bounded.solid
  uniform := by
    cases kind with
    | true => exact .inl bounded.all
    | false => exact .inr bounded.all

/-- What stands next to the run is in no run with it. -/
theorem not_isRun {s : List Char} (next : isSeparator c ∨ isDigit c ≠ kind) (member : c ∈ s)
    (part : run ⊆ s) : ¬IsRun s := by
  intro isRun
  obtain ⟨d, own, begins⟩ := List.exists_cons_of_ne_nil bounded.some_char
  have inside : d ∈ run := begins ▸ List.mem_cons_self
  rcases next with separator | other
  · rw [isRun.solid c member] at separator
    cases separator
  · exact other ((isRun.kind_eq member (part inside)).trans (bounded.all d inside))

/-- **A run with other characters at its ends is maximal.** -/
theorem isMaximalRun : IsMaximalRun before run after where
  isRun := bounded.isRun
  maximal left right ends begins isRun := by
    have part : run ⊆ left ++ run ++ right := fun d member =>
      List.mem_append_left _ (List.mem_append_right _ member)
    constructor
    · by_contra longer
      obtain ⟨others, rfl⟩ := ends
      have last : (others ++ left).getLast? = some (left.getLast longer) := by
        rw [List.getLast?_append, List.getLast?_eq_some_getLast longer, Option.some_or]
      refine bounded.not_isRun (bounded.left _ last) ?_ part isRun
      exact List.mem_append_left _ (List.mem_append_left _ (List.getLast_mem longer))
    · by_contra longer
      obtain ⟨d, own, rfl⟩ := List.exists_cons_of_ne_nil longer
      obtain ⟨others, rfl⟩ := begins
      refine bounded.not_isRun (bounded.right d rfl) ?_ part isRun
      exact List.mem_append_right _ List.mem_cons_self

/-- Something more may be put in front of what is before a run. -/
theorem append_left (lead : List Char)
    (edge : before = [] → ∀ c ∈ lead.getLast?, isSeparator c ∨ isDigit c ≠ kind) :
    Bounded kind (lead ++ before) run after where
  some_char := bounded.some_char
  solid := bounded.solid
  all := bounded.all
  left := by
    intro c last
    rw [List.getLast?_append] at last
    cases known : before.getLast? with
    | none =>
        rw [known, Option.none_or] at last
        exact edge (List.getLast?_eq_none_iff.mp known) c last
    | some d =>
        rw [known, Option.some_or] at last
        exact bounded.left c (known.trans last)
  right := bounded.right

end Bounded

/-! ## Tags -/

/-- What is left of a text without its separators. -/
def solidPart (s : List Char) : List Char := s.filter (!isSeparator ·)

theorem solidPart_of_solid (solid : ∀ c ∈ run, isSeparator c = false) (rest : List Char) :
    solidPart (run ++ rest) = run ++ solidPart rest := by
  have kept : run.filter (!isSeparator ·) = run :=
    List.filter_eq_self.mpr fun c member => by simp [solid c member]
  rw [solidPart, List.filter_append, kept]
  rfl

theorem solidPart_of_separator (separator : isSeparator c) (rest : List Char) :
    solidPart (c :: rest) = solidPart rest :=
  List.filter_cons_of_neg (by simp [separator])

/-- What a tag consists of, from left to right: separators, and runs with nothing next to them with
which they could go on. -/
inductive Arrangement : List Char → List (List Char) → Prop
  | nil : Arrangement [] []
  | separator {c : Char} {tag : List Char} {found : List (List Char)} (separator : isSeparator c)
      (rest : Arrangement tag found) : Arrangement (c :: tag) found
  | run {kind : Bool} {run tag : List Char} {found : List (List Char)}
      (bounded : Bounded kind [] run tag) (rest : Arrangement tag found) :
      Arrangement (run ++ tag) (run :: found)

theorem Bounded.tagRuns_append (bounded : Bounded kind [] run tag) :
    tagRuns (run ++ tag) = run :: tagRuns tag := by
  obtain ⟨piece, pieces, split⟩ := List.exists_cons_of_ne_nil (List.splitOnP_ne_nil isSeparator tag)
  have stop : ∀ c ∈ piece.head?, isDigit c ≠ kind := by
    intro c first
    cases tag with
    | nil => cases (List.cons.inj split).1 ▸ first
    | cons d tag =>
        rw [List.splitOnP_cons_eq_if_modifyHead] at split
        by_cases separator : isSeparator d
        · rw [if_pos separator] at split
          cases (List.cons.inj split).1 ▸ first
        · obtain ⟨piece', pieces', split'⟩ :=
            List.exists_cons_of_ne_nil (List.splitOnP_ne_nil isSeparator tag)
          rw [if_neg separator, split', List.modifyHead_cons] at split
          rw [← (List.cons.inj split).1] at first
          cases first
          exact (bounded.right _ rfl).resolve_left separator
  rw [tagRuns, splitOnP_append bounded.solid, tagRuns, split, List.modifyHead_cons,
    List.flatMap_cons, List.flatMap_cons, runs_append bounded.some_char bounded.all stop]
  rfl

/-- A tag that does not begin with a separator begins with a run. -/
theorem exists_bounded (other : isSeparator c = false) (tag : List Char) :
    ∃ run rest, c :: tag = run ++ rest ∧ Bounded (isDigit c) [] run rest := by
  obtain ⟨run, rest, split, own, stop⟩ :=
    exists_run (fun d => !isSeparator d && isDigit d == isDigit c) (c :: tag)
  refine ⟨run, rest, split, ?_, fun d member => ?_, fun d member => ?_, (by simp),
    fun d first => ?_⟩
  · rintro rfl
    have first := stop c (by rw [← List.nil_append rest, ← split]; rfl)
    simp [other] at first
  · simpa using (Bool.and_eq_true_iff.mp (own d member)).1
  · simpa using (Bool.and_eq_true_iff.mp (own d member)).2
  · have kind := stop d first
    cases separator : isSeparator d with
    | true => exact .inl rfl
    | false =>
        rw [separator] at kind
        exact .inr (by simpa using kind)

/-- **Every tag is arranged so**, with the runs that are compared. -/
theorem arrangement_tagRuns (tag : List Char) : Arrangement tag (tagRuns tag) := by
  induction size : tag.length using Nat.strongRecOn generalizing tag with
  | _ n ih =>
      cases tag with
      | nil => exact .nil
      | cons c tag =>
          cases separator : isSeparator c with
          | true =>
              rw [tagRuns_separator separator]
              exact .separator separator (ih tag.length (size ▸ Nat.lt_succ_self _) tag rfl)
          | false =>
              obtain ⟨run, rest, split, bounded⟩ := exists_bounded separator tag
              have shorter : rest.length < n := by
                have positive := List.length_pos_iff.mpr bounded.some_char
                rw [← size, split, List.length_append]
                omega
              rw [split, bounded.tagRuns_append]
              exact .run bounded (ih rest.length shorter rest rfl)

namespace Arrangement

/-- Nothing but separators is left out of the runs. -/
theorem flatten_eq (arrangement : Arrangement tag found) : found.flatten = solidPart tag := by
  induction arrangement with
  | nil => rfl
  | separator separator rest ih => rw [ih, solidPart_of_separator separator]
  | run bounded rest ih => rw [List.flatten_cons, ih, solidPart_of_solid bounded.solid]

/-- **Each run is at its place**: before it are the earlier ones, behind it the later ones, and
nothing else but separators, and at both of its ends the run cannot go on. -/
theorem exists_place (arrangement : Arrangement tag found) {earlier later : List (List Char)}
    (place : found = earlier ++ run :: later) : ∃ before after, tag = before ++ (run ++ after) ∧
      solidPart before = earlier.flatten ∧ solidPart after = later.flatten ∧
      ∃ kind, Bounded kind before run after := by
  induction arrangement generalizing earlier with
  | nil => cases List.append_ne_nil_of_right_ne_nil earlier (List.cons_ne_nil run later) place.symm
  | @separator c tag found separator rest ih =>
      obtain ⟨before, after, rfl, first, second, kind, bounded⟩ := ih place
      refine ⟨c :: before, after, rfl, ?_, second, kind, bounded.append_left [c] fun _ d last => ?_⟩
      · rw [solidPart_of_separator separator, first]
      · cases last
        exact .inl separator
  | @run kind own tag found bounded rest ih =>
      cases earlier with
      | nil =>
          obtain ⟨rfl, rfl⟩ := List.cons.inj place
          exact ⟨[], tag, rfl, rfl, rest.flatten_eq.symm, kind, bounded⟩
      | cons run' earlier =>
          obtain ⟨rfl, later_place⟩ := List.cons.inj place
          obtain ⟨before, after, rfl, first, second, kind', bounded'⟩ := ih later_place
          refine ⟨own ++ before, after, (List.append_assoc _ _ _).symm, ?_, second, kind',
            bounded'.append_left own fun none_between d last => .inr fun same => ?_⟩
          · rw [solidPart_of_solid bounded.solid, first, List.flatten_cons]
          · -- with nothing between them the two runs are of different kinds
            obtain ⟨e, more, begins⟩ := List.exists_cons_of_ne_nil bounded'.some_char
            have inside : e ∈ _ := begins ▸ List.mem_cons_self
            have next := bounded.right e (by rw [none_between, begins]; rfl)
            rw [bounded'.solid e inside, bounded'.all e inside, ← same,
              bounded.all d (List.mem_of_mem_getLast? last)] at next
            simp at next

end Arrangement

end Gatekeeper.Version
