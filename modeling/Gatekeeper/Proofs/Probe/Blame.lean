import Gatekeeper.Proofs.Probe.Classification
import Gatekeeper.Proofs.Text.Find

set_option autoImplicit false

/-!
# Which library is blamed

A run that failed on an import may mention missing modules more than once: a library that can do
without another one warns of it, and an exception that was handled is shown before the one that was
not. The interpreter ends its error output with the import that made it fail. The verdict blames the
module that the first mention names, whatever line it stands in (`first_mention_is_blamed`). This is
the one that made the run fail if no mention precedes the last line, and need not be otherwise
(`not_last_line_is_blamed`).
-/

namespace Gatekeeper.Probe

open Text

/-! ## Mentions -/

/-- How a missing module is mentioned. -/
def phrase : List Char := "No module named".toList

/-- The text behind a mention gives a name: blanks, and the name in quotation marks of either
kind. -/
def Names (rest name : List Char) : Prop :=
  ∃ blanks q q' after, rest = blanks ++ q :: (name ++ q' :: after) ∧ (∀ c ∈ blanks, isBlank c) ∧
    isQuote q ∧ isQuote q' ∧ ∀ c ∈ name, isQuote c = false

/-- The top-level module of a dotted name. -/
def topModule (name : List Char) : List Char := name.takeWhile (· != '.')

/-- The first mention of a missing module gives a name with the top-level module `top`. -/
def FirstMentions (stderr top : List Char) : Prop :=
  ∃ before rest name, FirstAt phrase before rest stderr ∧ Names rest name ∧ topModule name = top

variable {stderr rest name : List Char}

theorem isBlank_eq_false_of_isQuote {c : Char} (quote : isQuote c = true) : isBlank c = false := by
  rw [isQuote, Bool.or_eq_true, beq_iff_eq, beq_iff_eq] at quote
  rcases quote with rfl | rfl
  · rfl
  · rfl

/-- **What is cut out behind a mention is the name that it gives.** -/
theorem names_iff : Names rest name ↔ ∃ q quoted after, trimStart rest = q :: quoted ∧
    isQuote q = true ∧ cutAt? isQuote quoted = some (name, after) := by
  constructor
  · rintro ⟨blanks, q, q', after, rfl, blank, opens, closes, plain⟩
    have first : ∀ c ∈ (q :: (name ++ q' :: after)).head?, isBlank c = false := by
      rintro c ⟨⟩
      exact isBlank_eq_false_of_isQuote opens
    exact ⟨q, _, after, trimStart_append blank first, opens, cutAt?_append plain closes⟩
  · rintro ⟨q, quoted, after, trimmed, opens, cut⟩
    obtain ⟨q', rfl, closes, plain⟩ := cutAt?_eq_some_iff.mp cut
    have whole : rest.takeWhile isBlank ++ trimStart rest = rest := List.takeWhile_append_dropWhile
    rw [trimmed] at whole
    exact ⟨_, q, q', after, whole.symm, fun _ => List.mem_takeWhile_imp, opens, closes, plain⟩

/-- **The module that is found is the one that the first mention names.** -/
theorem missingModule_eq_some_iff {module : String} :
    missingModule stderr = some module ↔ module ≠ "" ∧ FirstMentions stderr module.toList := by
  constructor
  · intro found
    rw [missingModule] at found
    split at found
    · cases found
    rename_i before rest cut
    have first : FirstAt phrase before rest stderr := splitAt?_eq_some_iff.mp cut
    split at found
    · cases found
    rename_i q quoted trimmed
    split at found
    · rename_i quote
      split at found
      · cases found
      rename_i name after closed
      have names : Names rest name := names_iff.mpr ⟨q, quoted, after, trimmed, quote, closed⟩
      dsimp only at found
      split at found
      · cases found
      rename_i some_char
      cases found
      refine ⟨?_, before, rest, name, first, names, String.toList_ofList.symm⟩
      intro empty
      exact some_char (List.isEmpty_iff.mpr (String.ofList_eq_empty_iff.mp empty))
    · cases found
  · rintro ⟨some_char, before, rest, name, first, names, top⟩
    obtain ⟨q, quoted, after, trimmed, quote, closed⟩ := names_iff.mp names
    have top : name.takeWhile (· != '.') = module.toList := top
    have not_empty : module.toList.isEmpty = false := by
      rw [List.isEmpty_eq_false_iff, ne_eq, String.toList_eq_nil_iff]
      exact some_char
    rw [missingModule, show "No module named".toList = phrase from rfl,
      splitAt?_eq_some_iff.mpr first]
    simp only [trimmed, quote, closed, top, not_empty]
    rw [String.ofList_toList]
    rfl

/-- No module is found if the first mention gives no name, or one without a top-level module. -/
theorem missingModule_eq_none_iff :
    missingModule stderr = none ↔ ∀ top, FirstMentions stderr top → top = [] := by
  constructor
  · intro none top mentions
    by_contra some_char
    have found : missingModule stderr = some (String.ofList top) := by
      refine missingModule_eq_some_iff.mpr ⟨?_, ?_⟩
      · rwa [ne_eq, String.ofList_eq_empty_iff]
      · rwa [String.toList_ofList]
    cases none.symm.trans found
  · intro nameless
    cases found : missingModule stderr with
    | none => rfl
    | some module =>
        obtain ⟨some_char, mentions⟩ := missingModule_eq_some_iff.mp found
        exact absurd (String.toList_eq_nil_iff.mp (nameless _ mentions)) some_char

/-! ## The last line -/

/-- `line` is the last line of `s` that is not blank, and `before` is what precedes it. -/
def LastLine (s before line : List Char) : Prop :=
  ∃ after, s = before ++ (line ++ after) ∧ (∀ c ∈ before.getLast?, c = '\n') ∧
    ∀ c ∈ after, isBlank c

/-- A name as it stands behind a mention. -/
def quoted (name : List Char) : List Char := ' ' :: '\x27' :: (name ++ ['\x27'])

/-- The first word of the line about an import that failed. -/
def marker : List Char := "ModuleNotFoundError:".toList

/-- The line with which an import that fails ends the error output. -/
def importError (name : List Char) : List Char := marker ++ ([' '] ++ (phrase ++ quoted name))

variable {before M : List Char}

theorem plain_of_all {name : List Char} (all : name.all (!isQuote ·) = true) :
    ∀ c ∈ name, isQuote c = false := by
  intro c member
  exact Bool.not_eq_true' _ |>.mp (List.all_eq_true.mp all c member)

theorem names_quoted (M after : List Char) (plain : ∀ c ∈ M, isQuote c = false) :
    Names (quoted M ++ after) M := by
  refine ⟨[' '], '\x27', '\x27', after, ?_, List.all_eq_true.mp rfl, rfl, rfl, plain⟩
  simp [quoted]

/-- A mention does not begin before its first letter does. -/
theorem firstAt_phrase (before rest : List Char) (absent : 'N' ∉ before) :
    FirstAt phrase before rest (before ++ (phrase ++ rest)) := by
  have letters : phrase = 'N' :: "o module named".toList := rfl
  rw [letters]
  exact firstAt_of_head absent

/-- The mention in the line is the first one from the beginning of the line. -/
theorem firstAt_importError (M after : List Char) :
    FirstAt phrase (marker ++ [' ']) (quoted M ++ after)
      (importError M ++ after) := by
  -- only the word before the blank has the first letter of a mention, and it has no blank
  have blank := firstAt_phrase [' '] (quoted M ++ after) (by decide)
  have silent : ¬ phrase <:+: marker := fun occurs =>
    absurd (occurs.subset (by decide : ' ' ∈ phrase)) (by decide)
  have last : ∀ d ∈ marker.getLast?, d ∉ phrase := by
    rintro d ⟨⟩
    decide
  rw [importError, List.append_assoc, List.append_assoc, List.append_assoc]
  exact blank.append silent last

/-- **Without another mention before it, the last line is the first mention.** -/
theorem LastLine.firstMentions (last : LastLine stderr before (importError M))
    (plain : ∀ c ∈ M, isQuote c = false) (silent : ¬ phrase <:+: before) :
    FirstMentions stderr (topModule M) := by
  obtain ⟨after, rfl, ends, _⟩ := last
  have no_newline : ∀ d ∈ before.getLast?, d ∉ phrase := by
    intro d last
    rw [ends d last]
    decide
  exact ⟨_, _, M, (firstAt_importError M after).append silent no_newline,
    names_quoted M after plain, rfl⟩

/-- An output that ends with the line tells of a failed import. -/
theorem LastLine.tellsOfImport {out : Output}
    (last : LastLine out.stderr.toList before (importError M)) : TellsOfImport out.stderr := by
  obtain ⟨after, whole, _⟩ := last
  have line : marker <:+: out.stderr.toList := by
    refine ⟨before, [' '] ++ (phrase ++ quoted M) ++ after, ?_⟩
    rw [whole, importError]
    simp only [List.append_assoc]
  exact ⟨"ModuleNotFoundError:", List.mem_cons_self, line⟩

/-- The verdict on an output that ends with the line. -/
theorem LastLine.classify_eq {out : Output} (rs : List Requirement)
    (failure : out.success = false) (last : LastLine out.stderr.toList before (importError M)) :
    classify out rs = .missing (missingModule out.stderr.toList) := by
  rw [classify, failure]
  rcases classifyFailure_eq out with ⟨_, missing⟩ | ⟨silent, _⟩
  · exact missing
  · exact absurd last.tellsOfImport silent

/-- **The first mention is blamed.** A run that failed with a failed import in the last line of its
error output gets the verdict that a library is missing, whatever precedes that line.

* A library is blamed if and only if the first mention of a missing module, in whatever line, gives
  a name with that library as its top-level module.
* None is blamed if and only if the first mention gives no such name.
* If no mention precedes the last line, then the library in the last line is blamed, with messages
  of their own for the two libraries of the language server. -/
theorem first_mention_is_blamed (out : Output) (rs : List Requirement) (before M : List Char)
    (failure : out.success = false) (last : LastLine out.stderr.toList before (importError M))
    (plain : ∀ c ∈ M, isQuote c = false) (top : topModule M ≠ []) :
    (∀ module, classify out rs = .missing (some module) ↔
      module ≠ "" ∧ FirstMentions out.stderr.toList module.toList) ∧
    (classify out rs = .missing none ↔ ∀ t, FirstMentions out.stderr.toList t → t = []) ∧
    (∃ module, classify out rs = .missing module) ∧
    (¬ phrase <:+: before →
      classify out rs = .missing (some (String.ofList (topModule M))) ∧
      (topModule M = "pygls".toList → (classify out rs).message.code = "E006") ∧
      (topModule M = "spacy".toList → (classify out rs).message.code = "E007")) := by
  have verdict := last.classify_eq rs failure
  refine ⟨fun module => ?_, ?_, ⟨_, verdict⟩, fun silent => ?_⟩
  · rw [verdict, Verdict.missing.injEq, missingModule_eq_some_iff]
  · rw [verdict, Verdict.missing.injEq, missingModule_eq_none_iff]
  · have found : missingModule out.stderr.toList = some (String.ofList (topModule M)) := by
      refine missingModule_eq_some_iff.mpr ⟨?_, ?_⟩
      · rwa [ne_eq, String.ofList_eq_empty_iff]
      · rw [String.toList_ofList]
        exact last.firstMentions plain silent
    rw [verdict, found]
    refine ⟨rfl, fun pygls => ?_, fun spacy => ?_⟩
    · rw [pygls, String.ofList_toList]
      rfl
    · rw [spacy, String.ofList_toList]
      rfl

/-- How a library begins to say that it does without another one. -/
def adviser : List Char := "UserWarning: no GPU: ".toList

def warning : List Char := adviser ++ (phrase ++ (quoted "cupy".toList ++ ['\n']))

/-- After the warning, the import of `pygls.server` fails. -/
def warned : Output where
  success := false
  code := some 1
  stdout := ""
  stderr := String.ofList (warning ++ (importError "pygls.server".toList ++ ['\n']))

theorem lastLine_warned :
    LastLine warned.stderr.toList warning (importError "pygls.server".toList) := by
  refine ⟨['\n'], String.toList_ofList, ?_, List.all_eq_true.mp rfl⟩
  intro c last
  have newline : warning.getLast? = some '\n' := by
    rw [warning, ← List.append_assoc, ← List.append_assoc, List.getLast?_concat]
  cases newline.symm.trans last
  rfl

theorem firstMentions_warned : FirstMentions warned.stderr.toList "cupy".toList := by
  have first := firstAt_phrase adviser
    (quoted "cupy".toList ++ (['\n'] ++ (importError "pygls.server".toList ++ ['\n']))) (by decide)
  rw [warned, String.toList_ofList, warning, List.append_assoc, List.append_assoc,
    List.append_assoc]
  exact ⟨_, _, _, first, names_quoted _ _ (plain_of_all rfl), by decide⟩

/-- The library that the warning names is blamed, and `pygls` is not. -/
theorem first_mention_is_blamed_warned :
    classify warned Requirement.defaults = .missing (some "cupy") ∧
      classify warned Requirement.defaults ≠ .missing (some "pygls") := by
  obtain ⟨blamed, _⟩ := first_mention_is_blamed warned Requirement.defaults _ _ rfl lastLine_warned
    (plain_of_all rfl) (by decide)
  have cupy := (blamed "cupy").mpr ⟨by decide, firstMentions_warned⟩
  refine ⟨cupy, fun pygls => ?_⟩
  rw [cupy, Verdict.missing.injEq, Option.some_inj] at pygls
  exact absurd pygls (by decide)

/-- **The module in the last line need not be the one that is blamed.** -/
theorem not_last_line_is_blamed :
    ¬ ∀ (out : Output) (rs : List Requirement) (before M : List Char), out.success = false →
      LastLine out.stderr.toList before (importError M) → (∀ c ∈ M, isQuote c = false) →
      topModule M ≠ [] → classify out rs = .missing (some (String.ofList (topModule M))) := by
  intro always
  have pygls := always warned [] _ _ rfl lastLine_warned (plain_of_all rfl) (by decide)
  have cupy : missingModule warned.stderr.toList = some "cupy" :=
    missingModule_eq_some_iff.mpr ⟨by decide, firstMentions_warned⟩
  rw [lastLine_warned.classify_eq _ rfl, cupy, Verdict.missing.injEq, Option.some_inj] at pygls
  exact absurd pygls (by decide)

end Gatekeeper.Probe
