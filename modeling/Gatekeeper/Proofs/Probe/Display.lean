import Gatekeeper.Config.Decode
import Gatekeeper.Probe.Output
import Gatekeeper.Proofs.Probe.Quotation
import Gatekeeper.Proofs.Text.Blank

set_option autoImplicit false

/-!
# The tuple in the probe script

What a Python interpreter takes for a tuple of names (`Display`): an opening bracket, string
literals with commas between them, and a closing bracket. A single name needs a comma behind it, and
without a name there must be none. A literal of this kind stands in one line (`ShortBody`). The
script is written so that it has such a tuple, with the names in it, if and only if there is a name
and no name has a line feed, a carriage return or a null character (`display_iff`).

Main statements: `script_displays_names`, `not_every_script_displays`.
-/

namespace Gatekeeper.Probe

open Text

/-! ## Tuples of literals -/

/-- The characters that must not stand in a literal: the two line ends, and the null character. -/
def breaks (c : Char) : Bool := c == '\n' || c == '\r' || c == '\x00'

/-- What may stand between the quotation marks of a literal that is in one line. -/
structure ShortBody (s : List Char) : Prop where
  isBody : Body s
  oneLine : ∀ c ∈ s, breaks c = false

/-- The character that an escape of one letter stands for. -/
def escapeValue? (c : Char) : Option Char :=
  match c with
  | '\x5c' | '\x27' | '\x22' => some c
  | 'a' => some '\x07'
  | 'b' => some '\x08'
  | 'f' => some '\x0c'
  | 'n' => some '\n'
  | 'r' => some '\r'
  | 't' => some '\t'
  | 'v' => some '\x0b'
  | _ => none

/-- The text that a literal stands for, none if it has an escape of another kind. -/
def value? : List Char → Option (List Char)
  | [] => some []
  | '\x5c' :: c :: s => (escapeValue? c).bind fun d => (value? s).map (d :: ·)
  | c :: s => (value? s).map (c :: ·)

/-- The characters that may stand between two tokens inside brackets. -/
def isGap (c : Char) : Bool := c == ' ' || c == '\t' || c == '\x0c' || c == '\n' || c == '\r'

/-- How a tuple goes on behind its first literal: with the other literals, each behind a comma,
perhaps with a last comma, and with the bracket. `rest` is what stands behind it. -/
inductive Follows : List Char → List (List Char) → Bool → List Char → Prop
  | close {g rest : List Char} (gap : ∀ c ∈ g, isGap c) : Follows (g ++ ')' :: rest) [] false rest
  | comma {g h rest : List Char} (gap : ∀ c ∈ g, isGap c) (gap' : ∀ c ∈ h, isGap c) :
      Follows (g ++ ',' :: (h ++ ')' :: rest)) [] true rest
  | next {g h body s rest : List Char} {bodies : List (List Char)} {comma : Bool}
      (gap : ∀ c ∈ g, isGap c) (gap' : ∀ c ∈ h, isGap c) (short : ShortBody body)
      (others : Follows s bodies comma rest) :
      Follows (g ++ ',' :: (h ++ '\x27' :: (body ++ '\x27' :: s))) (body :: bodies) comma rest

/-- A tuple of literals at the start of a text: there is none in it, or there are several, or there
is one with a comma behind it. -/
inductive Display : List Char → List (List Char) → List Char → Prop
  | empty {g rest : List Char} (gap : ∀ c ∈ g, isGap c) :
      Display ('(' :: (g ++ ')' :: rest)) [] rest
  | literals {g body s rest : List Char} {bodies : List (List Char)} {comma : Bool}
      (gap : ∀ c ∈ g, isGap c) (short : ShortBody body) (others : Follows s bodies comma rest)
      (isTuple : bodies ≠ [] ∨ comma = true) :
      Display ('(' :: (g ++ '\x27' :: (body ++ '\x27' :: s))) (body :: bodies) rest

/-! ## Names in literals -/

theorem value?_plain {c : Char} (bare : c ≠ '\x5c') (s : List Char) :
    value? (c :: s) = (value? s).map (c :: ·) := by
  rw [value?]
  exact fun _ _ backslash => absurd backslash bare

/-- What is put behind a backslash stands for itself there. -/
theorem escapeValue?_of_escapeChar {c : Char} (behind : escapeChar c = ['\x5c', c]) :
    escapeValue? c = some c := by
  rw [escapeChar] at behind
  split at behind
  · next special =>
    rw [Bool.or_eq_true, beq_iff_eq, beq_iff_eq] at special
    rcases special with rfl | rfl <;> rfl
  · cases behind

/-- **A literal stands for its name**, whatever is in it. -/
theorem value?_escape (name : List Char) : value? (escape name) = some name := by
  induction name with
  | nil => rfl
  | cons c name ih =>
      rw [escape_cons]
      rcases escapeChar_cases c with behind | ⟨bare, -, plain⟩
      · rw [behind, List.cons_append, List.cons_append, List.nil_append, value?,
          escapeValue?_of_escapeChar behind, ih]
        rfl
      · rw [bare, List.singleton_append, value?_plain plain, ih]
        rfl

/-- A literal has a line end or a null character in it if its name has. -/
theorem oneLine_escape_iff {name : List Char} :
    (∀ c ∈ escape name, breaks c = false) ↔ ∀ c ∈ name, breaks c = false := by
  have own (c : Char) : (∀ d ∈ escapeChar c, breaks d = false) ↔ breaks c = false := by
    rcases escapeChar_cases c with behind | ⟨bare, -⟩
    · rw [behind, List.forall_mem_cons, List.forall_mem_singleton]
      exact and_iff_right rfl
    · rw [bare, List.forall_mem_singleton]
  induction name with
  | nil => rfl
  | cons c name ih =>
      rw [escape_cons, List.forall_mem_append, List.forall_mem_cons]
      exact and_congr (own c) ih

theorem shortBody_escape_iff {name : List Char} :
    ShortBody (escape name) ↔ ∀ c ∈ name, breaks c = false :=
  ⟨fun short => oneLine_escape_iff.mp short.oneLine,
    fun oneLine => ⟨body_escape name, oneLine_escape_iff.mpr oneLine⟩⟩

/-- In a text that begins with a name there is one literal to read. -/
theorem eq_of_literal {name after body s : List Char} (short : ShortBody body)
    (same : escape name ++ '\x27' :: after = body ++ '\x27' :: s) :
    body = escape name ∧ s = after := by
  have closed := close?_eq_some_iff.mpr ⟨same, short.isBody⟩
  rw [close?_escape] at closed
  cases closed
  exact ⟨rfl, rfl⟩

/-! ## The tuple of the names -/

/-- What stands behind the first name of a tuple. -/
def behindFirst (trail : List Char) : List (List Char) → List Char
  | [] => ',' :: ')' :: trail
  | n :: ns => ',' :: ' ' :: '\x27' :: (escape n ++ '\x27' :: behindFirst trail ns)

theorem tuple_append (n : List Char) (ns : List (List Char)) (trail : List Char) :
    tuple (n :: ns) ++ trail = '(' :: '\x27' :: (escape n ++ '\x27' :: behindFirst trail ns) := by
  have inside : separator.intercalate ((n :: ns).map literal) ++ (",)".toList ++ trail) =
      '\x27' :: (escape n ++ '\x27' :: behindFirst trail ns) := by
    induction ns generalizing n with
    | nil =>
        rw [List.map_singleton, List.intercalate_singleton, literal_eq]
        simp [behindFirst]
    | cons m ns ih =>
        rw [List.map_cons, List.map_cons, List.intercalate_cons_cons, ← List.map_cons,
          List.append_assoc, ih, literal_eq]
        simp [behindFirst, separator]
  rw [tuple_cons, List.append_assoc, List.append_assoc, inside]
  rfl

/-- The first token of a text is found behind any gap. -/
theorem token_unique {g h s t : List Char} {c d : Char} (gap : ∀ c ∈ g, isGap c)
    (gap' : ∀ c ∈ h, isGap c) (token : isGap c = false) (token' : isGap d = false)
    (same : g ++ c :: s = h ++ d :: t) : c = d ∧ s = t := by
  have stop {c : Char} {s : List Char} (token : isGap c = false) :
      ∀ e ∈ (c :: s).head?, isGap e = false := fun e first => Option.some.inj first ▸ token
  have dropped := congrArg (List.dropWhile isGap) same
  rw [dropWhile_run gap (stop token), dropWhile_run gap' (stop token')] at dropped
  exact List.cons.inj dropped

variable {trail rest : List Char} {ns bodies : List (List Char)} {comma : Bool}

theorem gap_nil : ∀ c ∈ ([] : List Char), isGap c := List.forall_mem_nil _

theorem gap_blank : ∀ c ∈ [' '], isGap c := by decide

theorem follows_behindFirst (oneLine : ∀ n ∈ ns, ∀ c ∈ n, breaks c = false) :
    Follows (behindFirst trail ns) (ns.map escape) true trail := by
  induction ns with
  | nil => exact .comma gap_nil gap_nil
  | cons n ns ih =>
      exact .next gap_nil gap_blank (shortBody_escape_iff.mpr (oneLine n List.mem_cons_self))
        (ih fun m member => oneLine m (List.mem_cons_of_mem _ member))

/-- **There is one way to read on behind the first name.** -/
theorem of_follows_behindFirst (follows : Follows (behindFirst trail ns) bodies comma rest) :
    (∀ n ∈ ns, ∀ c ∈ n, breaks c = false) ∧ bodies = ns.map escape ∧ rest = trail := by
  -- by induction on the names that are left: the first token tells which rule was used
  induction ns generalizing bodies with
  | nil =>
      generalize text : behindFirst trail [] = s at follows
      rw [behindFirst] at text
      cases follows with
      | close gap => cases (token_unique gap_nil gap rfl rfl text).1
      | comma gap gap' =>
          obtain ⟨-, closed⟩ := token_unique gap_nil gap rfl rfl text
          obtain ⟨-, same⟩ := token_unique gap_nil gap' rfl rfl closed
          exact ⟨List.forall_mem_nil _, rfl, same.symm⟩
      | next gap gap' short others =>
          obtain ⟨-, closed⟩ := token_unique gap_nil gap rfl rfl text
          cases (token_unique gap_nil gap' rfl rfl closed).1
  | cons n ns ih =>
      generalize text : behindFirst trail (n :: ns) = s at follows
      rw [behindFirst] at text
      cases follows with
      | close gap => cases (token_unique gap_nil gap rfl rfl text).1
      | comma gap gap' =>
          obtain ⟨-, opened⟩ := token_unique gap_nil gap rfl rfl text
          cases (token_unique gap_blank gap' rfl rfl opened).1
      | next gap gap' short others =>
          obtain ⟨-, opened⟩ := token_unique gap_nil gap rfl rfl text
          obtain ⟨-, same⟩ := token_unique gap_blank gap' rfl rfl opened
          obtain ⟨rfl, rfl⟩ := eq_of_literal short same
          obtain ⟨oneLine, rfl, rfl⟩ := ih others
          exact ⟨List.forall_mem_cons.mpr ⟨shortBody_escape_iff.mp short, oneLine⟩, rfl, rfl⟩

/-- **The tuple of the names** is one if there is a name and all names are in one line, and it is
read in one way. -/
theorem display_iff {names : List (List Char)} : Display (tuple names ++ trail) bodies rest ↔
    names ≠ [] ∧ (∀ n ∈ names, ∀ c ∈ n, breaks c = false) ∧
      bodies = names.map escape ∧ rest = trail := by
  constructor
  · intro display
    generalize text : tuple names ++ trail = s at display
    cases names with
    | nil =>
        -- the first token behind the bracket is the comma
        rw [tuple_nil] at text
        cases display with
        | empty gap => cases (token_unique gap_nil gap rfl rfl (List.cons.inj text).2).1
        | literals gap => cases (token_unique gap_nil gap rfl rfl (List.cons.inj text).2).1
    | cons n ns =>
        rw [tuple_append] at text
        cases display with
        | empty gap => cases (token_unique gap_nil gap rfl rfl (List.cons.inj text).2).1
        | literals gap short others =>
            obtain ⟨-, same⟩ := token_unique gap_nil gap rfl rfl (List.cons.inj text).2
            obtain ⟨rfl, rfl⟩ := eq_of_literal short same
            obtain ⟨oneLine, rfl, rfl⟩ := of_follows_behindFirst others
            exact ⟨List.cons_ne_nil _ _,
              List.forall_mem_cons.mpr ⟨shortBody_escape_iff.mp short, oneLine⟩, rfl, rfl⟩
  · rintro ⟨some_name, oneLine, rfl, rfl⟩
    obtain ⟨n, ns, rfl⟩ := List.exists_cons_of_ne_nil some_name
    obtain ⟨first, others⟩ := List.forall_mem_cons.mp oneLine
    rw [tuple_append]
    exact .literals gap_nil (shortBody_escape_iff.mpr first) (follows_behindFirst others) (.inr rfl)

/-! ## The script -/

/-- Behind the sign of equality in the script stands a tuple of literals, and they stand for the
names of the requirements, in order. -/
def HasTuple (rs : List Requirement) : Prop :=
  ∃ after bodies rest, (script rs).toList = opening.toList ++ after ∧ Display after bodies rest ∧
    bodies.map value? = rs.map (some ·.name.toList)

/-- **The names are in the tuple** if there are some and all of them are in one line. -/
theorem hasTuple_iff {rs : List Requirement} : HasTuple rs ↔
    rs ≠ [] ∧ ∀ r ∈ rs, ∀ c ∈ r.name.toList, breaks c = false := by
  have lines : (∀ n ∈ rs.map (·.name.toList), ∀ c ∈ n, breaks c = false) ↔
      ∀ r ∈ rs, ∀ c ∈ r.name.toList, breaks c = false := List.forall_mem_map
  constructor
  · rintro ⟨after, bodies, rest, text, display, -⟩
    rw [toList_script, List.append_cancel_left_eq] at text
    subst text
    obtain ⟨some_name, oneLine, -⟩ := display_iff.mp display
    exact ⟨fun none => some_name (none ▸ rfl), lines.mp oneLine⟩
  · rintro ⟨some_name, oneLine⟩
    refine ⟨_, _, _, toList_script rs, display_iff.mpr
      ⟨mt List.map_eq_nil_iff.mp some_name, lines.mpr oneLine, rfl, rfl⟩, ?_⟩
    rw [List.map_map, List.map_map]
    exact List.map_congr_left fun r _ => value?_escape r.name.toList

/-- A list without requirements is accepted by a run that prints blanks only. -/
theorem classify_nil {out : Output} (success : out.success = true)
    (blank : ∀ c ∈ out.stdout.toList, isBlank c) : classify out [] = .compatible [] := by
  have noWord : words out.stdout.toList = [] := by
    rw [← List.append_nil out.stdout.toList, words_blanks blank, words_nil]
  rw [classify, if_pos success, classifySuccess, noWord]
  rfl

/-- **The script has the names in a tuple if there are some and none of them breaks its literal.**
For every list of requirements:

* Behind the sign of equality stand the tuple of the names and the rest of the program.
* A tuple can be read there if and only if there is a requirement and no name has a line feed, a
  carriage return or a null character. It can be read in one way: the literals are the names as they
  are written, each of which stands for the name itself, and behind the tuple is the rest of the
  program.
* Without a requirement there is a comma alone between the brackets, although a run that succeeds
  and prints blanks only is accepted then. -/
theorem script_displays_names (rs : List Requirement) :
    let names := rs.map (·.name.toList)
    (script rs).toList = opening.toList ++ (tuple names ++ closing.toList) ∧
    (∀ bodies rest, Display (tuple names ++ closing.toList) bodies rest ↔
      (names ≠ [] ∧ ∀ n ∈ names, ∀ c ∈ n, breaks c = false) ∧
        bodies = names.map escape ∧ rest = closing.toList) ∧
    (∀ name : List Char, value? (escape name) = some name) ∧
    (HasTuple rs ↔ rs ≠ [] ∧ ∀ r ∈ rs, ∀ c ∈ r.name.toList, breaks c = false) ∧
    tuple [] = "(,)".toList ∧
    ∀ out : Output, out.success = true → (∀ c ∈ out.stdout.toList, isBlank c) →
      classify out [] = .compatible [] :=
  ⟨toList_script rs, fun _ _ => by rw [display_iff, and_assoc], value?_escape,
    hasTuple_iff, tuple_nil, fun _ => classify_nil⟩

/-- Names with a quotation mark and with a backslash at the end are in the tuple, one with a line
end is not, and no name is needed to be accepted. -/
theorem script_displays_names_lines :
    let require (name : String) : Requirement := ⟨name, Version.ofRelease [1]⟩
    HasTuple [require "it's", require "a\\"] ∧ ¬HasTuple [require "it's", require "a\nb"] ∧
      classify ⟨true, some 0, "\n", ""⟩ [] = .compatible [] := by
  intro require
  obtain ⟨-, -, -, quoted, -⟩ := script_displays_names [require "it's", require "a\\"]
  obtain ⟨-, -, -, broken, -, accepted⟩ := script_displays_names [require "it's", require "a\nb"]
  refine ⟨quoted.mpr (by decide), fun tuple => ?_, accepted _ rfl (by decide)⟩
  exact absurd (broken.mp tuple).2 (by decide)

/-- **Not every configuration has a script with a tuple**, even if a run can be accepted with it:
there may be no requirement, and a name may have two lines. -/
theorem not_every_script_displays :
    (¬∀ (text : String) (config : Config), Config.ofText? text = some config →
      (∃ out observed, classify out config.requirements = .compatible observed) →
      HasTuple config.requirements) ∧
    ¬∀ (text : String) (config : Config), Config.ofText? text = some config →
      config.requirements ≠ [] → HasTuple config.requirements := by
  constructor
  · intro all
    have empty : (Config.ofText? "requirements = []\n").map (·.requirements.length) = some 0 := by
      decide +kernel
    obtain ⟨config, decoded, none_left⟩ := Option.map_eq_some_iff.mp empty
    have none_left : config.requirements = [] := List.eq_nil_of_length_eq_zero none_left
    have accepted : classify ⟨true, some 0, "", ""⟩ config.requirements = .compatible [] := by
      rw [none_left]
      exact classify_nil rfl (List.forall_mem_nil _)
    exact (hasTuple_iff.mp (all _ config decoded ⟨_, _, accepted⟩)).1 none_left
  · intro all
    have broken : (Config.ofText?
        "[[requirements]]\nname = \"py\\ngls\"\nminimum = \"1\"\n").map
          (·.requirements.map (·.name)) = some ["py\ngls"] := by
      decide +kernel
    obtain ⟨config, decoded, names⟩ := Option.map_eq_some_iff.mp broken
    have listed : "py\ngls" ∈ config.requirements.map (·.name) := names ▸ List.mem_singleton_self _
    obtain ⟨r, member, name⟩ := List.mem_map.mp listed
    have oneLine :=
      (hasTuple_iff.mp (all _ config decoded (List.ne_nil_of_mem member))).2 r member '\n'
    rw [name] at oneLine
    cases oneLine (by decide)

end Gatekeeper.Probe
