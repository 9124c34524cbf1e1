import Gatekeeper.Probe.Script
import Gatekeeper.Proofs.Text.Find

set_option autoImplicit false

/-!
# Names in quotation marks

The probe script quotes the names of the required libraries. A reader of the script takes a
backslash with the character behind it as that character, so what stands between two quotation marks
is given by `Body`, and a literal ends at one place (`close?_eq_some_iff`). The names are written so
that each literal ends where its name does (`close?_escape`), whatever is in the name, and the names
can be read back from the script (`scan?_tuple`).

Main statement: `names_stay_in_their_quotes`.
-/

namespace Gatekeeper.Probe

open Text

/-! ## Literals -/

/-- What may stand between the quotation marks of a literal: any character behind a backslash, and
otherwise no quotation mark. -/
inductive Body : List Char → Prop
  | nil : Body []
  | plain {c : Char} {s : List Char} (open_ : c ≠ '\x27') (bare : c ≠ '\x5c') (rest : Body s) :
      Body (c :: s)
  | escaped {c : Char} {s : List Char} (rest : Body s) : Body ('\x5c' :: c :: s)

/-- What stands before the quotation mark that closes a literal, and what stands behind it. -/
def close? : List Char → Option (List Char × List Char)
  | [] => none
  | '\x27' :: after => some ([], after)
  | '\x5c' :: c :: s => (close? s).map fun (body, after) => ('\x5c' :: c :: body, after)
  | c :: s => (close? s).map fun (body, after) => (c :: body, after)

variable {s body after : List Char}

theorem close?_plain {c : Char} (open_ : c ≠ '\x27') (bare : c ≠ '\x5c') (s : List Char) :
    close? (c :: s) = (close? s).map fun (body, after) => (c :: body, after) := by
  rw [close?]
  · exact open_
  · exact fun _ _ backslash => absurd backslash bare

/-- **A literal ends at the first quotation mark with a body before it.** -/
theorem close?_eq_some_iff :
    close? s = some (body, after) ↔ s = body ++ '\x27' :: after ∧ Body body := by
  constructor
  · intro closed
    fun_induction close? s generalizing body with
    | case1 => cases closed
    | case2 rest =>
        cases closed
        exact ⟨rfl, .nil⟩
    | case3 c s ih =>
        obtain ⟨⟨b, a⟩, found, same⟩ := Option.map_eq_some_iff.mp closed
        cases same
        obtain ⟨rfl, isBody⟩ := ih found
        exact ⟨rfl, .escaped isBody⟩
    | case4 c s open_ bare ih =>
        obtain ⟨⟨b, a⟩, found, same⟩ := Option.map_eq_some_iff.mp closed
        cases same
        obtain ⟨rfl, isBody⟩ := ih found
        refine ⟨rfl, .plain open_ ?_ isBody⟩
        -- a backslash would have taken the next character
        rintro rfl
        obtain ⟨d, rest, behind⟩ :=
          List.exists_cons_of_ne_nil (List.append_ne_nil_of_right_ne_nil b
            (List.cons_ne_nil '\x27' after))
        exact bare d rest rfl behind
  · rintro ⟨rfl, isBody⟩
    induction isBody with
    | nil => rfl
    | @plain c s open_ bare rest ih =>
        rw [List.cons_append, close?_plain open_ bare, ih]
        rfl
    | @escaped c s rest ih =>
        rw [List.cons_append, List.cons_append, close?, ih]
        rfl

/-- A text without its escapes. -/
def unescape : List Char → List Char
  | [] => []
  | '\x5c' :: c :: s => c :: unescape s
  | c :: s => c :: unescape s

theorem unescape_plain {c : Char} (bare : c ≠ '\x5c') (s : List Char) :
    unescape (c :: s) = c :: unescape s := by
  rw [unescape]
  exact fun _ _ backslash => absurd backslash bare

/-! ## Names -/

/-- A name as it stands between its quotation marks. -/
def escape (name : List Char) : List Char := name.flatMap escapeChar

/-- A text with another one in the place of a character. -/
def replaceAll (c : Char) (t s : List Char) : List Char :=
  s.flatMap fun d => if d = c then t else [d]

variable {name : List Char}

theorem literal_eq (name : List Char) : literal name = '\x27' :: (escape name ++ ['\x27']) := rfl

/-- Backslashes are written twice first, and then one is put before each quotation mark. -/
theorem escape_eq_replaceAll (name : List Char) : escape name =
    replaceAll '\x27' ['\x5c', '\x27'] (replaceAll '\x5c' ['\x5c', '\x5c'] name) := by
  rw [replaceAll, replaceAll, List.flatMap_assoc, escape]
  refine congrArg (name.flatMap ·) (funext fun c => ?_)
  by_cases backslash : c = '\x5c'
  · rw [backslash]
    decide
  · by_cases mark : c = '\x27'
    · rw [mark]
      decide
    · simp [escapeChar, backslash, mark]

theorem escape_cons (c : Char) (name : List Char) :
    escape (c :: name) = escapeChar c ++ escape name := rfl

/-- A character is written as it is or behind a backslash. -/
theorem escapeChar_cases (c : Char) :
    escapeChar c = ['\x5c', c] ∨ (escapeChar c = [c] ∧ c ≠ '\x27' ∧ c ≠ '\x5c') := by
  rw [escapeChar]
  split
  · exact .inl rfl
  · next other =>
    rw [Bool.or_eq_true, beq_iff_eq, beq_iff_eq, not_or] at other
    exact .inr ⟨rfl, other.2, other.1⟩

/-- **A name is written as the body of a literal**, whatever is in it. -/
theorem body_escape (name : List Char) : Body (escape name) := by
  induction name with
  | nil => exact .nil
  | cons c name ih =>
      rw [escape_cons]
      rcases escapeChar_cases c with behind | ⟨bare, open_, plain⟩
      · rw [behind]
        exact .escaped ih
      · rw [bare]
        exact .plain open_ plain ih

/-- **The name is what is left without the escapes.** -/
theorem unescape_escape (name : List Char) : unescape (escape name) = name := by
  induction name with
  | nil => rfl
  | cons c name ih =>
      rw [escape_cons]
      rcases escapeChar_cases c with behind | ⟨bare, -, plain⟩
      · rw [behind, List.cons_append, List.cons_append, List.nil_append, unescape, ih]
      · rw [bare, List.singleton_append, unescape_plain plain, ih]

/-- **A literal ends where its name does.** -/
theorem close?_escape (name after : List Char) :
    close? (escape name ++ '\x27' :: after) = some (escape name, after) :=
  close?_eq_some_iff.mpr ⟨rfl, body_escape name⟩

/-! ## Texts with literals in them -/

theorem length_lt_of_close? {before inside : List Char}
    (cut : cutAt? (· == '\x27') s = some (before, inside))
    (closed : close? inside = some (body, after)) : after.length < s.length := by
  obtain ⟨c, rfl, -, -⟩ := cutAt?_eq_some_iff.mp cut
  obtain ⟨rfl, -⟩ := close?_eq_some_iff.mp closed
  simp only [List.length_append, List.length_cons]
  omega

/-- Reads a text from left to right: what stands before the first literal, and the body of each
literal with what stands behind it, up to the next one. -/
def scan? (s : List Char) : Option (List Char × List (List Char × List Char)) :=
  match cut : cutAt? (· == '\x27') s with
  | none => some (s, [])
  | some (before, inside) =>
    match closed : close? inside with
    | none => none
    | some (body, after) =>
      have := length_lt_of_close? cut closed
      (scan? after).map fun (behind, more) => (before, (body, behind) :: more)
  termination_by s.length

/-- A text is cut at its first quotation mark. -/
theorem cutAt?_mark {before inside : List Char} : cutAt? (· == '\x27') s = some (before, inside) ↔
    s = before ++ '\x27' :: inside ∧ '\x27' ∉ before := by
  constructor
  · intro cut
    obtain ⟨c, rfl, mark, none_before⟩ := cutAt?_eq_some_iff.mp cut
    refine ⟨by rw [beq_iff_eq.mp mark], fun member => ?_⟩
    exact absurd rfl (beq_eq_false_iff_ne.mp (none_before _ member))
  · rintro ⟨rfl, noMark⟩
    refine cutAt?_append (fun c member => ?_) rfl
    rw [beq_eq_false_iff_ne]
    rintro rfl
    exact noMark member

theorem not_mem_of_uncut (uncut : cutAt? (· == '\x27') s = none) : '\x27' ∉ s := by
  intro member
  obtain ⟨before, inside, whole, noMark⟩ := List.eq_append_cons_of_mem member
  cases uncut.symm.trans (cutAt?_mark.mpr ⟨whole, noMark⟩)

theorem scan?_plain (noMark : '\x27' ∉ s) : scan? s = some (s, []) := by
  rw [scan?]
  split
  · rfl
  · next before inside cut =>
    rw [(cutAt?_mark.mp cut).1] at noMark
    exact absurd (List.mem_append_right _ List.mem_cons_self) noMark

theorem scan?_literal {before behind : List Char} {more : List (List Char × List Char)}
    (noMark : '\x27' ∉ before) (isBody : Body body) (rest : scan? after = some (behind, more)) :
    scan? (before ++ '\x27' :: (body ++ '\x27' :: after)) =
      some (before, (body, behind) :: more) := by
  have cut : cutAt? (· == '\x27') (before ++ '\x27' :: (body ++ '\x27' :: after)) =
      some (before, body ++ '\x27' :: after) := cutAt?_mark.mpr ⟨rfl, noMark⟩
  have closed : close? (body ++ '\x27' :: after) = some (body, after) :=
    close?_eq_some_iff.mpr ⟨rfl, isBody⟩
  rw [scan?]
  split
  · next uncut => cases uncut.symm.trans cut
  · next before' inside cut' =>
    cases cut'.symm.trans cut
    split
    · next unclosed => cases unclosed.symm.trans closed
    · next body' after' closed' =>
      cases closed'.symm.trans closed
      rw [rest]
      rfl

/-- What is put before a text without a quotation mark goes to what stands before the first
literal. -/
theorem scan?_append {before behind : List Char} {more : List (List Char × List Char)}
    (noMark : '\x27' ∉ before) (rest : scan? s = some (behind, more)) :
    scan? (before ++ s) = some (before ++ behind, more) := by
  rw [scan?] at rest
  split at rest
  · next uncut =>
    cases rest
    have none_inside : '\x27' ∉ before ++ s := List.not_mem_append noMark (not_mem_of_uncut uncut)
    exact scan?_plain none_inside
  · next before' inside cut =>
    split at rest
    · cases rest
    · next body after closed =>
      obtain ⟨⟨behind', more'⟩, scanned, same⟩ := Option.map_eq_some_iff.mp rest
      cases same
      obtain ⟨rfl, noMark'⟩ := cutAt?_mark.mp cut
      obtain ⟨rfl, isBody⟩ := close?_eq_some_iff.mp closed
      rw [← List.append_assoc]
      exact scan?_literal (List.not_mem_append noMark noMark') isBody scanned

/-! ## Tuples -/

/-- What stands between two names. -/
def separator : List Char := ", ".toList

/-- The literals of several names, each with what stands behind it: `last` behind the last one, and
a separator behind the others. -/
def elements (last : List Char) : List (List Char) → List (List Char × List Char)
  | [] => []
  | [n] => [(escape n, last)]
  | n :: m :: ns => (escape n, separator) :: elements last (m :: ns)

theorem map_unescape_elements (last : List Char) (names : List (List Char)) :
    (elements last names).map (fun part => unescape part.1) = names := by
  fun_induction elements last names with
  | case1 => rfl
  | case2 n => rw [List.map_singleton, unescape_escape]
  | case3 n m ns ih => rw [List.map_cons, ih, unescape_escape]

/-- **The literals of a tuple are those of its names**, whatever stands before and behind it. -/
theorem scan?_elements {before trail behind : List Char} {more : List (List Char × List Char)}
    (n : List Char) (ns : List (List Char)) (noMark : '\x27' ∉ before)
    (rest : scan? trail = some (behind, more)) :
    scan? (before ++ (separator.intercalate ((n :: ns).map literal) ++ trail)) =
      some (before, elements behind (n :: ns) ++ more) := by
  induction ns generalizing n before with
  | nil =>
      have scanned := scan?_literal noMark (body_escape n) rest
      rw [List.map_singleton, List.intercalate_singleton, literal_eq, elements]
      simpa only [List.cons_append, List.nil_append, List.append_assoc] using scanned
  | cons m ns ih =>
      have scanned := scan?_literal noMark (body_escape n) (ih m (by decide : '\x27' ∉ separator))
      rw [List.map_cons, List.map_cons, List.intercalate_cons_cons, literal_eq, elements]
      simpa only [List.map_cons, List.cons_append, List.nil_append, List.append_assoc] using scanned

theorem tuple_cons (n : List Char) (ns : List (List Char)) : tuple (n :: ns) =
    ['('] ++ (separator.intercalate ((n :: ns).map literal) ++ ",)".toList) := rfl

theorem tuple_nil : tuple [] = "(,)".toList := rfl

/-- **What a reader of a tuple sees**: the names, and nothing else in quotation marks. -/
theorem scan?_tuple (names : List (List Char)) {trail behind : List Char}
    {more : List (List Char × List Char)} (rest : scan? trail = some (behind, more)) :
    scan? (tuple names ++ trail) = some (if names = [] then "(,)".toList ++ behind else ['('],
      elements (",)".toList ++ behind) names ++ more) := by
  cases names with
  | nil => rw [tuple_nil, scan?_append (by decide) rest, if_pos rfl, elements, List.nil_append]
  | cons n ns =>
      have ends : scan? (",)".toList ++ trail) = some (",)".toList ++ behind, more) :=
        scan?_append (by decide) rest
      rw [tuple_cons, List.append_assoc, List.append_assoc, scan?_elements n ns (by decide) ends,
        if_neg (List.cons_ne_nil n ns)]

/-! ## The script -/

theorem toList_script (rs : List Requirement) : (script rs).toList =
    opening.toList ++ (tuple (rs.map (·.name.toList)) ++ closing.toList) := by
  rw [script, String.toList_append, String.toList_append, String.toList_ofList, List.append_assoc]

/-- What stands between the tuple and the only other literal of a script. -/
def between : List Char := "; [__import__(_x) for _x in _n]; print(".toList

/-- What stands behind that literal. -/
def behindAll : List Char := ".join(_m.version(_x) for _x in _n))".toList

/-- The other literal is the blank between two versions that are printed. -/
theorem closing_eq :
    closing.toList = between ++ '\x27' :: ([' '] ++ '\x27' :: behindAll) := by decide

/-- The names in a script: what its literals stand for, without the last one, which stands between
the versions that are printed. -/
def scannedNames? (s : List Char) : Option (List (List Char)) :=
  (scan? s).map fun scanned => (scanned.2.map fun part => unescape part.1).dropLast

/-- **The names can be read back from the script.** -/
theorem scannedNames?_script (rs : List Requirement) :
    scannedNames? (script rs).toList = some (rs.map (·.name.toList)) := by
  have blank : Body [' '] := .plain (by decide) (by decide) .nil
  have ends : scan? closing.toList = some (between, [([' '], behindAll)]) := by
    rw [closing_eq]
    exact scan?_literal (by decide) blank (scan?_plain (by decide))
  have noMark : '\x27' ∉ opening.toList := by decide
  have scanned := scan?_append noMark (scan?_tuple (rs.map (·.name.toList)) ends)
  rw [toList_script, scannedNames?, scanned, Option.map_some, List.map_append,
    map_unescape_elements, List.map_singleton, List.dropLast_concat]

/-! ## The main statement -/

/-- **Names stay in their quotation marks.** For every list of requirements, whatever characters
their names have, the script has the tuple of the names in it.

* A reader of the tuple, who takes a backslash with the character behind it as that character, sees
  one literal for each name, in order, a comma and a blank between two of them, and no other
  literal.
* Each name is written with two replacements, and what is read without the escapes is the name. Of
  all quotation marks in it and behind it, the one put behind it is the one that closes its literal.
* The names can be read back from the script, so the script is the same for the same names only. -/
theorem names_stay_in_their_quotes (rs : List Requirement) :
    let names := rs.map (·.name.toList)
    (script rs).toList = opening.toList ++ (tuple names ++ closing.toList) ∧
    scan? (tuple names) = some (if names = [] then "(,)".toList else ['('],
      elements ",)".toList names) ∧
    (∀ name : List Char, unescape (escape name) = name ∧
      escape name =
        replaceAll '\x27' ['\x5c', '\x27'] (replaceAll '\x5c' ['\x5c', '\x5c'] name) ∧
      ∀ trail body after : List Char,
        (escape name ++ '\x27' :: trail = body ++ '\x27' :: after ∧ Body body) ↔
          body = escape name ∧ after = trail) ∧
    scannedNames? (script rs).toList = some names ∧
    ∀ rs' : List Requirement, script rs = script rs' ↔ rs.map (·.name) = rs'.map (·.name) := by
  have nothing : scan? [] = some ([], []) := scan?_plain List.not_mem_nil
  have tupleScanned := scan?_tuple (rs.map (·.name.toList)) nothing
  rw [List.append_nil, List.append_nil, List.append_nil, List.append_nil] at tupleScanned
  refine ⟨toList_script rs, tupleScanned,
    fun name => ⟨unescape_escape name, escape_eq_replaceAll name, fun trail body after => ?_⟩,
    scannedNames?_script rs, fun rs' => ?_⟩
  · rw [← close?_eq_some_iff, close?_escape, Option.some_inj, Prod.mk.injEq, eq_comm,
      eq_comm (a := trail)]
  · have lists (rs : List Requirement) :
        rs.map (·.name.toList) = (rs.map (·.name)).map String.toList := by
      rw [List.map_map]
      rfl
    constructor
    · intro same
      have names := scannedNames?_script rs
      rw [same, scannedNames?_script rs', Option.some_inj, lists, lists] at names
      exact ((List.map_inj_right fun _ _ => String.toList_inj.mp).mp names).symm
    · intro same
      rw [script, script, lists, lists, same]

/-- One name that looks like the literals of two, and ends with a backslash. -/
theorem names_stay_in_their_quotes_lookalike :
    let require (name : String) : Requirement := ⟨name, Version.ofRelease [1]⟩
    scannedNames? (script [require "a', 'b\\"]).toList = some ["a', 'b\\".toList] ∧
      script [require "a', 'b\\"] ≠ script [require "a", require "b"] := by
  intro require
  obtain ⟨-, -, -, back, different⟩ := names_stay_in_their_quotes [require "a', 'b\\"]
  refine ⟨back, fun same => ?_⟩
  exact absurd ((different [require "a", require "b"]).mp same) (by decide)

end Gatekeeper.Probe
