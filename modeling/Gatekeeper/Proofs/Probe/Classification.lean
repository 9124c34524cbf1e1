import Gatekeeper.Probe.Output
import Gatekeeper.Proofs.Text.Blank
import Mathlib.Data.List.Forall2

set_option autoImplicit false

/-!
# What a verdict says about an output

The verdict on a run that succeeded is found in three steps: the words are counted, they are read as
versions one after another, and the versions are held against the minimums. Each step is
characterised on its own (`classifySuccess_of_count`, `readVersions_eq_ok_iff` and
`readVersions_eq_error`, `classifySuccess_of_reports`). An output either reports a version for every
requirement or fails one of the first two steps (`reports_or_not`), so the verdicts exclude each
other, and every verdict can be traced back to the output (`classification_is_exact`).
-/

namespace Gatekeeper.Probe

open Text

/-! ## What an output reports -/

/-- The word is read as the version. -/
def ReadsAs (w : List Char) (v : Version) : Prop := Version.parse (String.ofList w) = .ok v

/-- The words of an output are versions, one for each requirement, in their order. -/
def Reports (stdout : String) (requirements : List Requirement) (versions : List Version) : Prop :=
  ∃ ws, Splits stdout.toList ws ∧ ws.length = requirements.length ∧
    List.Forall₂ ReadsAs ws versions

/-- Each requirement is met by the version at its place. -/
def AllMet (requirements : List Requirement) (versions : List Version) : Prop :=
  ∀ p ∈ requirements.zip versions, p.2.satisfies p.1.minimum = true

/-- The requirements that the versions at their places do not meet, in order, with what was observed
and what is required. -/
def shortfalls (requirements : List Requirement) (versions : List Version) : List Unmet :=
  ((requirements.zip versions).filter fun p => !p.2.satisfies p.1.minimum).map fun p =>
    ⟨p.1.name, p.2, p.1.minimum⟩

/-- The word at the place of `r` is the first one that cannot be read as a version. -/
def Unreadable (stdout : String) (requirements : List Requirement) (r : Requirement)
    (e : Version.ParseError) : Prop :=
  ∃ before after ws w ws', requirements = before ++ r :: after ∧
    Splits stdout.toList (ws ++ w :: ws') ∧ before.length = ws.length ∧
    after.length = ws'.length ∧ (∀ u ∈ ws, ∃ v, ReadsAs u v) ∧
    Version.parse (String.ofList w) = .error e

/-! ## Reading the words -/

variable {rs : List Requirement} {ws : List (List Char)} {versions : List Version}
  {stdout : String}

/-- **The words are read as versions if each of them is one.** -/
theorem readVersions_eq_ok_iff (count : ws.length = rs.length) :
    readVersions rs ws = .ok versions ↔
      List.Forall₂ ReadsAs ws versions := by
  induction ws generalizing rs versions with
  | nil =>
      have none : rs = [] := List.length_eq_zero_iff.mp count.symm
      rw [none, readVersions, List.forall₂_nil_left_iff]
      · exact ⟨fun read => (Except.ok.inj read).symm, fun empty => congrArg _ empty.symm⟩
      · exact nofun
  | cons w ws ih =>
      cases rs with
      | nil => cases count
      | cons r rs =>
          have count : ws.length = rs.length := Nat.succ.inj count
          rw [readVersions]
          cases read : Version.parse (String.ofList w) with
          | error e =>
              constructor
              · exact nofun
              · intro all
                cases all with
                | cons first _ => cases read.symm.trans first
          | ok v =>
              constructor
              · intro rest
                cases tail : readVersions rs ws with
                | error _ =>
                    rw [tail] at rest
                    cases rest
                | ok vs =>
                    rw [tail] at rest
                    cases rest
                    exact .cons read ((ih count).mp tail)
              · intro all
                cases all with
                | cons first rest =>
                    cases read.symm.trans first
                    rw [(ih count).mpr rest]
                    rfl

/-- The first word that is not a version is blamed on its requirement. -/
theorem readVersions_eq_error {before after : List Requirement} {r : Requirement}
    {w : List Char} {ws' : List (List Char)} {e : Version.ParseError}
    (count : before.length = ws.length)
    (readable : ∀ u ∈ ws, ∃ v, ReadsAs u v)
    (unreadable : Version.parse (String.ofList w) = .error e) :
    readVersions (before ++ r :: after) (ws ++ w :: ws')
      = .error ("unreadable " ++ r.name ++ " version: " ++ e.message) := by
  induction ws generalizing before with
  | nil =>
      have none : before = [] := List.length_eq_zero_iff.mp count
      rw [none, List.nil_append, List.nil_append, readVersions, unreadable]
  | cons u ws ih =>
      cases before with
      | nil => cases count
      | cons q before =>
          obtain ⟨v, read⟩ := readable u List.mem_cons_self
          have rest := ih (Nat.succ.inj count) fun x member =>
            readable x (List.mem_cons_of_mem _ member)
          rw [List.cons_append, List.cons_append, readVersions, read]
          show (readVersions _ _).map _ = _
          rw [rest]
          rfl

/-- Words are all versions, or one of them is the first that is not. -/
theorem forall₂_or_first (ws : List (List Char)) :
    (∃ versions, List.Forall₂ ReadsAs ws versions) ∨
      ∃ done w rest e, ws = done ++ w :: rest ∧
        (∀ u ∈ done, ∃ v, ReadsAs u v) ∧
        Version.parse (String.ofList w) = .error e := by
  induction ws with
  | nil => exact Or.inl ⟨[], .nil⟩
  | cons w ws ih =>
      cases read : Version.parse (String.ofList w) with
      | error e => exact Or.inr ⟨[], w, ws, e, rfl, nofun, read⟩
      | ok v =>
          rcases ih with ⟨versions, all⟩ | ⟨done, u, rest, e, rfl, readable, unreadable⟩
          · exact Or.inl ⟨v :: versions, .cons read all⟩
          · exact Or.inr ⟨w :: done, u, rest, e, rfl,
              List.forall_mem_cons.mpr ⟨⟨v, read⟩, readable⟩, unreadable⟩

/-! ## The three steps -/

theorem unmet_eq_shortfalls (rs : List Requirement) (versions : List Version) :
    unmet rs versions = shortfalls rs versions := by
  rw [unmet, shortfalls]
  induction rs.zip versions with
  | nil => rfl
  | cons p ps ih =>
      obtain ⟨r, v⟩ := p
      rw [List.filterMap_cons, List.filter_cons, ih]
      cases met : v.satisfies r.minimum with
      | true => simp [Requirement.metBy, met]
      | false => simp [Requirement.metBy, met]

/-- No requirement falls short if and only if all are met. -/
theorem shortfalls_eq_nil_iff : shortfalls rs versions = [] ↔ AllMet rs versions := by
  rw [shortfalls, List.map_eq_nil_iff, List.filter_eq_nil_iff, AllMet]
  simp

/-- The wrong number of words. -/
theorem classifySuccess_of_count (split : Splits stdout.toList ws)
    (wrong : ws.length ≠ rs.length) :
    classifySuccess stdout rs = .failed ("expected " ++ toString rs.length
      ++ " version strings, got '" ++ String.ofList (trim stdout.toList) ++ "'") := by
  rw [classifySuccess, splits_iff.mp split]
  exact if_pos (bne_iff_ne.mpr wrong)

/-- As many words as requirements, but one of them is not a version. -/
theorem classifySuccess_of_unreadable {r : Requirement} {e : Version.ParseError}
    (bad : Unreadable stdout rs r e) :
    classifySuccess stdout rs
      = .failed ("unreadable " ++ r.name ++ " version: " ++ e.message) := by
  obtain ⟨before, after, ws, w, ws', rfl, split, count, count', readable, unreadable⟩ := bad
  have right : (ws ++ w :: ws').length = (before ++ r :: after).length := by
    rw [List.length_append, List.length_append, List.length_cons, List.length_cons]
    omega
  rw [classifySuccess, splits_iff.mp split]
  simp only [right, bne_self_eq_false]
  rw [readVersions_eq_error count readable unreadable]
  rfl

/-- A version for each requirement. -/
theorem classifySuccess_of_reports (reports : Reports stdout rs versions) :
    classifySuccess stdout rs =
      if (shortfalls rs versions).isEmpty then .compatible (observe rs versions)
      else .mismatch (observe rs versions) (shortfalls rs versions) := by
  obtain ⟨ws, split, count, all⟩ := reports
  rw [classifySuccess, splits_iff.mp split]
  simp only [count, bne_self_eq_false]
  rw [(readVersions_eq_ok_iff count).mpr all, ← unmet_eq_shortfalls]
  rfl

/-- **An output reports its versions, or there is one thing wrong with it.** -/
theorem reports_or_not (stdout : String) (rs : List Requirement) :
    (∃ versions, Reports stdout rs versions) ∨
      (∃ ws, Splits stdout.toList ws ∧ ws.length ≠ rs.length) ∨
      ∃ r e, Unreadable stdout rs r e := by
  have split : Splits stdout.toList (words stdout.toList) := splits_iff.mpr rfl
  by_cases count : (words stdout.toList).length = rs.length
  · rcases forall₂_or_first (words stdout.toList) with
      ⟨versions, all⟩ | ⟨done, w, rest, e, same, readable, unreadable⟩
    · exact Or.inl ⟨versions, _, split, count, all⟩
    · -- the requirement at the place of the word is the one to blame
      rw [same] at split count
      rw [List.length_append, List.length_cons] at count
      have place : done.length < rs.length := by omega
      have parts : rs = rs.take done.length ++ rs[done.length] :: rs.drop (done.length + 1) := by
        rw [← List.drop_eq_getElem_cons, List.take_append_drop]
      have before : (rs.take done.length).length = done.length := by
        rw [List.length_take]
        omega
      have after : (rs.drop (done.length + 1)).length = rest.length := by
        rw [List.length_drop]
        omega
      exact Or.inr (Or.inr
        ⟨_, e, _, _, done, w, rest, parts, split, before, after, readable, unreadable⟩)
  · exact Or.inr (Or.inl ⟨_, split, count⟩)

/-! ## The kinds of verdicts -/

/-- What a run that succeeded is ruled to be, for each of the things that its output can report. -/
inductive Ruling (stdout : String) (rs : List Requirement) : Verdict → Prop
  | compatible {versions : List Version} (reports : Reports stdout rs versions)
      (met : AllMet rs versions) : Ruling stdout rs (.compatible (observe rs versions))
  | mismatch {versions : List Version} (reports : Reports stdout rs versions)
      (short : ¬ AllMet rs versions) :
      Ruling stdout rs (.mismatch (observe rs versions) (shortfalls rs versions))
  | failed (reason : String) (silent : ∀ versions, ¬ Reports stdout rs versions) :
      Ruling stdout rs (.failed reason)

theorem Reports.count (reports : Reports stdout rs versions) (split : Splits stdout.toList ws) :
    ws.length = rs.length := by
  obtain ⟨ws', split', count, _⟩ := reports
  rw [← splits_iff.mp split, splits_iff.mp split']
  exact count

/-- An output with a word that is no version does not report versions. -/
theorem Unreadable.silent {r : Requirement} {e : Version.ParseError}
    (bad : Unreadable stdout rs r e) (versions : List Version) : ¬ Reports stdout rs versions := by
  intro reports
  have verdict := classifySuccess_of_reports reports
  rw [classifySuccess_of_unreadable bad] at verdict
  split at verdict
  · cases verdict
  · cases verdict

/-- **The ruling on a run that succeeded.** -/
theorem ruling (stdout : String) (rs : List Requirement) :
    Ruling stdout rs (classifySuccess stdout rs) := by
  rcases reports_or_not stdout rs with ⟨versions, reports⟩ | ⟨ws, split, wrong⟩ | ⟨r, e, bad⟩
  · rw [classifySuccess_of_reports reports]
    by_cases met : AllMet rs versions
    · rw [if_pos (List.isEmpty_iff.mpr (shortfalls_eq_nil_iff.mpr met))]
      exact .compatible reports met
    · rw [if_neg fun none => met (shortfalls_eq_nil_iff.mp (List.isEmpty_iff.mp none))]
      exact .mismatch reports met
  · rw [classifySuccess_of_count split wrong]
    exact .failed _ fun versions reports => wrong (reports.count split)
  · rw [classifySuccess_of_unreadable bad]
    exact .failed _ bad.silent

/-- The error output tells of a failed import: one of the markers is a part of it. -/
def TellsOfImport (stderr : String) : Prop := ∃ m ∈ importMarkers, m.toList <:+: stderr.toList

theorem tellsOfImport_iff {stderr : String} :
    tellsOfImport stderr.toList = true ↔ TellsOfImport stderr := by
  rw [tellsOfImport, List.any_eq_true]
  constructor
  · rintro ⟨m, marker, occurs⟩
    exact ⟨m, marker, occursIn_iff.mp occurs⟩
  · rintro ⟨m, marker, part⟩
    exact ⟨m, marker, occursIn_iff.mpr part⟩

/-- The verdict on a run that failed. -/
theorem classifyFailure_eq (out : Output) :
    (TellsOfImport out.stderr ∧
        classifyFailure out = .missing (missingModule out.stderr.toList)) ∨
      ¬ TellsOfImport out.stderr ∧ classifyFailure out = .failed (failureReason out) := by
  rw [classifyFailure, ← tellsOfImport_iff]
  cases tellsOfImport out.stderr.toList with
  | true => exact Or.inl ⟨rfl, rfl⟩
  | false => exact Or.inr ⟨nofun, rfl⟩

/-- The observations are the names of the requirements, in order, with the versions. -/
def Pairs (rs : List Requirement) (versions : List Version) (observed : List Observed) : Prop :=
  observed.map (fun o => (o.name, o.version)) = (rs.map Requirement.name).zip versions

theorem pairs_iff {observed : List Observed} :
    Pairs rs versions observed ↔ observed = observe rs versions := by
  have paired : Pairs rs versions (observe rs versions) := by
    rw [Pairs, observe, List.map_zipWith, List.zip_map_left, List.zip, List.map_zipWith]
    rfl
  have injective : Function.Injective fun o : Observed => (o.name, o.version) := by
    intro o o' same
    cases o
    cases o'
    cases same
    rfl
  constructor
  · intro pairs
    exact List.map_injective_iff.mpr injective (pairs.trans paired.symm)
  · rintro rfl
    exact paired

theorem classifySuccess_eq_compatible_iff {observed : List Observed} :
    classifySuccess stdout rs = .compatible observed ↔
      ∃ versions, Reports stdout rs versions ∧ AllMet rs versions ∧ Pairs rs versions observed := by
  constructor
  · intro verdict
    have ruled := ruling stdout rs
    rw [verdict] at ruled
    cases ruled with
    | compatible reports met => exact ⟨_, reports, met, pairs_iff.mpr rfl⟩
  · rintro ⟨versions, reports, met, pairs⟩
    rw [classifySuccess_of_reports reports, shortfalls_eq_nil_iff.mpr met, pairs_iff.mp pairs]
    rfl

theorem classifySuccess_eq_mismatch_iff {observed : List Observed} {unmet : List Unmet} :
    classifySuccess stdout rs = .mismatch observed unmet ↔
      ∃ versions, Reports stdout rs versions ∧ ¬ AllMet rs versions ∧ Pairs rs versions observed ∧
        unmet = shortfalls rs versions ∧ unmet ≠ [] := by
  constructor
  · intro verdict
    have ruled := ruling stdout rs
    rw [verdict] at ruled
    cases ruled with
    | mismatch reports short =>
        exact ⟨_, reports, short, pairs_iff.mpr rfl, rfl,
          fun none => short (shortfalls_eq_nil_iff.mp none)⟩
  · rintro ⟨versions, reports, _, pairs, rfl, some⟩
    rw [classifySuccess_of_reports reports, pairs_iff.mp pairs]
    exact if_neg fun none => some (List.isEmpty_iff.mp none)

theorem classifySuccess_eq_failed_iff :
    (∃ reason, classifySuccess stdout rs = .failed reason) ↔
      ∀ versions, ¬ Reports stdout rs versions := by
  constructor
  · rintro ⟨reason, verdict⟩
    have ruled := ruling stdout rs
    rw [verdict] at ruled
    cases ruled with
    | failed _ silent => exact silent
  · intro silent
    have ruled := ruling stdout rs
    cases verdict : classifySuccess stdout rs with
    | failed reason => exact ⟨reason, rfl⟩
    | compatible observed =>
        obtain ⟨versions, reports, _⟩ := classifySuccess_eq_compatible_iff.mp verdict
        exact absurd reports (silent versions)
    | mismatch observed unmet =>
        obtain ⟨versions, reports, _⟩ := classifySuccess_eq_mismatch_iff.mp verdict
        exact absurd reports (silent versions)
    | notFound path =>
        rw [verdict] at ruled
        cases ruled
    | missing module =>
        rw [verdict] at ruled
        cases ruled

theorem classifySuccess_ne_missing (module : Option String) :
    classifySuccess stdout rs ≠ .missing module := by
  intro verdict
  have ruled := ruling stdout rs
  rw [verdict] at ruled
  cases ruled

/-! ## The main statement -/

/-- **The verdict is exact.** For every output and all requirements:

* it is *compatible* if and only if the run succeeded, the words of the output are versions, one
  for each requirement, and all requirements are met;
* it is a *mismatch* if and only if all this is so, but not all requirements are met;
* both tell the names with the versions in order, and a mismatch tells what falls short;
* a run that succeeded with the wrong number of words has *failed*, and so has one with a word that
  is not a version; the first such word is blamed on the requirement at its place;
* altogether it has *failed* if and only if the run succeeded and no versions are reported, or did
  not succeed and does not tell of a failed import;
* a library is *missing* if and only if the run did not succeed and tells of a failed import;
* the error output does not matter if the run succeeded, nor the other one if it did not. -/
theorem classification_is_exact (out : Output) (rs : List Requirement) :
    (∀ observed, classify out rs = .compatible observed ↔
      out.success = true ∧ ∃ versions, Reports out.stdout rs versions ∧ AllMet rs versions ∧
        Pairs rs versions observed) ∧
    (∀ observed unmet, classify out rs = .mismatch observed unmet ↔
      out.success = true ∧ ∃ versions, Reports out.stdout rs versions ∧ ¬ AllMet rs versions ∧
        Pairs rs versions observed ∧ unmet = shortfalls rs versions ∧ unmet ≠ []) ∧
    (out.success = true → ∀ ws, Splits out.stdout.toList ws → ws.length ≠ rs.length →
      classify out rs = .failed ("expected " ++ toString rs.length
        ++ " version strings, got '" ++ String.ofList (trim out.stdout.toList) ++ "'")) ∧
    (out.success = true → ∀ r e, Unreadable out.stdout rs r e →
      classify out rs = .failed ("unreadable " ++ r.name ++ " version: " ++ e.message)) ∧
    ((∃ reason, classify out rs = .failed reason) ↔
      out.success = true ∧ (∀ versions, ¬ Reports out.stdout rs versions) ∨
        out.success = false ∧ ¬ TellsOfImport out.stderr) ∧
    ((∃ module, classify out rs = .missing module) ↔
      out.success = false ∧ TellsOfImport out.stderr) ∧
    (∀ out' : Output, out'.success = out.success → (out.success = true → out'.stdout = out.stdout) →
      (out.success = false → out'.stderr = out.stderr ∧ out'.code = out.code) →
      classify out' rs = classify out rs) := by
  obtain ⟨success, code, stdout, stderr⟩ := out
  cases success with
  | true =>
      refine ⟨fun _ => ?_, fun _ _ => ?_, fun _ _ => classifySuccess_of_count,
        fun _ _ _ => classifySuccess_of_unreadable, ?_, ?_, ?_⟩
      · exact classifySuccess_eq_compatible_iff.trans (and_iff_right rfl).symm
      · exact classifySuccess_eq_mismatch_iff.trans (and_iff_right rfl).symm
      · constructor
        · exact fun failed => Or.inl ⟨rfl, classifySuccess_eq_failed_iff.mp failed⟩
        · rintro (⟨_, silent⟩ | ⟨failure, _⟩)
          · exact classifySuccess_eq_failed_iff.mpr silent
          · cases failure
      · constructor
        · rintro ⟨module, missing⟩
          exact absurd missing (classifySuccess_ne_missing module)
        · rintro ⟨failure, _⟩
          cases failure
      · rintro ⟨success', code', stdout', stderr'⟩ success same _
        cases same rfl
        cases success
        rfl
  | false =>
      -- a run that did not succeed has one of two verdicts, which the error output tells apart
      have verdict := classifyFailure_eq ⟨false, code, stdout, stderr⟩
      refine ⟨fun _ => ⟨fun compatible => ?_, nofun⟩, fun _ _ => ⟨fun mismatch => ?_, nofun⟩,
        nofun, nofun, ⟨?_, ?_⟩, ⟨?_, ?_⟩, ?_⟩
      · rcases verdict with ⟨_, missing⟩ | ⟨_, failed⟩
        · cases compatible.symm.trans missing
        · cases compatible.symm.trans failed
      · rcases verdict with ⟨_, missing⟩ | ⟨_, failed⟩
        · cases mismatch.symm.trans missing
        · cases mismatch.symm.trans failed
      · rintro ⟨reason, failed⟩
        rcases verdict with ⟨_, missing⟩ | ⟨silent, _⟩
        · cases failed.symm.trans missing
        · exact Or.inr ⟨rfl, silent⟩
      · rintro (⟨success, _⟩ | ⟨_, silent⟩)
        · cases success
        · rcases verdict with ⟨tells, _⟩ | ⟨_, failed⟩
          · exact absurd tells silent
          · exact ⟨_, failed⟩
      · rintro ⟨module, missing⟩
        rcases verdict with ⟨tells, _⟩ | ⟨_, failed⟩
        · exact ⟨rfl, tells⟩
        · cases missing.symm.trans failed
      · rintro ⟨_, tells⟩
        rcases verdict with ⟨_, missing⟩ | ⟨silent, _⟩
        · exact ⟨_, missing⟩
        · exact absurd tells silent
      · rintro ⟨success', code', stdout', stderr'⟩ failure _ same
        obtain ⟨rfl, rfl⟩ := same rfl
        cases failure
        rfl

/-- The first version is too low and the second is none: the requirement of the second is named, and
what the error output says is ignored. -/
theorem classification_is_exact_unreadable :
    let out : Output := ⟨true, some 0, "0.9 unknown\n", "ImportError: no GPU"⟩
    Unreadable out.stdout Requirement.defaults ⟨"spacy", Version.ofRelease [3, 4, 4]⟩
        (.noRelease "unknown") ∧
      classify out Requirement.defaults
        = .failed ("unreadable spacy version: version 'unknown' does not start with a numeric "
          ++ "release") ∧
      ¬ ∃ module, classify out Requirement.defaults = .missing module := by
  intro out
  have bad : Unreadable out.stdout Requirement.defaults ⟨"spacy", Version.ofRelease [3, 4, 4]⟩
      (.noRelease "unknown") := by
    have readable : ∀ u ∈ ["0.9".toList], ∃ v, ReadsAs u v := by
      intro u member
      rw [List.mem_singleton.mp member]
      exact ⟨_, rfl⟩
    exact ⟨[⟨"pygls", Version.ofRelease [1, 0, 0]⟩], [], ["0.9".toList], "unknown".toList, [], rfl,
      splits_iff.mpr (by decide), rfl, rfl, readable, rfl⟩
  obtain ⟨_, _, _, unreadable, _, missing, _⟩ :=
    classification_is_exact out Requirement.defaults
  refine ⟨bad, unreadable rfl _ _ bad, ?_⟩
  intro blamed
  cases (missing.mp blamed).1

end Gatekeeper.Probe
