import Gatekeeper.Machine.World
import Gatekeeper.Proofs.Machine.Disk
import Gatekeeper.Proofs.Probe.Classification

set_option autoImplicit false

/-!
# Verifying a candidate

A verification looks for the candidate, runs it at most once, and waits for the answer no longer
than it may. There is one way to a compatible verdict: the candidate exists, its answer comes in
time, and it is an output that reports a sufficient version for every requirement
(`verification_is_exact`).
-/

namespace Gatekeeper.Machine.Disk

/-- There is something at the path: it leads to an entry, links followed. -/
def Has (d : Disk) (cwd : Location) (path : String) : Prop :=
  IsPath path ∧ ∃ loc e, d.Leads true maxLinks (linkStart path cwd) (steps path) (.entry loc e)

theorem occupied_iff {d : Disk} {cwd : Location} {path : String} :
    d.occupied cwd path = true ↔ d.Has cwd path := by
  rw [occupied, entry?, Option.isSome_iff_exists]
  constructor
  · rintro ⟨⟨loc, e⟩, found⟩
    split at found
    · rename_i leads
      obtain ⟨isPath, leads⟩ := find_eq_ok_iff.mp leads
      exact ⟨isPath, _, _, leads⟩
    · cases found
  · rintro ⟨isPath, loc, e, leads⟩
    rw [find_eq_ok_iff.mpr ⟨isPath, leads⟩]
    exact ⟨(loc, e), rfl⟩

end Gatekeeper.Machine.Disk

namespace Gatekeeper.Probe

open Machine

/-! ## Answers -/

/-- The answer comes no later than it may, and it is the output. -/
def Answer.Delivers (answer : Answer) (timeout : Nat) (out : Output) : Prop :=
  answer.delay ≤ timeout ∧ answer.result = .ok out

/-- The output is that of a run that succeeded, with a sufficient version for every requirement. -/
def Output.Suffices (out : Output) (rs : List Requirement) : Prop :=
  out.success = true ∧ ∃ versions, Reports out.stdout rs versions ∧ AllMet rs versions

variable {answer : Answer} {timeout : Nat} {rs : List Requirement} {out : Output}

theorem classify_compatible_iff :
    (∃ observed, classify out rs = .compatible observed) ↔ out.Suffices rs := by
  rw [classify, Output.Suffices]
  cases success : out.success with
  | false =>
      have verdict := classifyFailure_eq out
      constructor
      · rintro ⟨observed, compatible⟩
        have compatible : classifyFailure out = .compatible observed := compatible
        rcases verdict with ⟨_, missing⟩ | ⟨_, failed⟩
        · cases compatible.symm.trans missing
        · cases compatible.symm.trans failed
      · exact nofun
  | true =>
      constructor
      · rintro ⟨observed, compatible⟩
        obtain ⟨versions, reports, met, _⟩ := classifySuccess_eq_compatible_iff.mp compatible
        exact ⟨rfl, versions, reports, met⟩
      · rintro ⟨_, versions, reports, met⟩
        exact ⟨_, classifySuccess_eq_compatible_iff.mpr ⟨versions, reports, met, pairs_iff.mpr rfl⟩⟩

/-- An answer that comes in time counts as what its output says. -/
theorem judge_of_delivers (delivers : answer.Delivers timeout out) :
    judge answer timeout rs = classify out rs := by
  rw [judge, if_neg (Nat.not_lt.mpr delivers.1), delivers.2]

/-- An answer that comes too late does not count, whatever it is. -/
theorem judge_of_late (late : timeout < answer.delay) :
    judge answer timeout rs = .failed ("probe timed out after " ++ showSeconds timeout ++ "s") :=
  if_pos late

/-- Without an output there is nothing to count. -/
theorem judge_of_error {reason : String} (prompt : answer.delay ≤ timeout)
    (error : answer.result = .error reason) :
    judge answer timeout rs = .failed ("failed to run interpreter: " ++ reason) := by
  rw [judge, if_neg (Nat.not_lt.mpr prompt), error]

/-- **The way to a compatible verdict.** -/
theorem judge_compatible_iff :
    (∃ observed, judge answer timeout rs = .compatible observed) ↔
      ∃ out, answer.Delivers timeout out ∧ out.Suffices rs := by
  constructor
  · rintro ⟨observed, compatible⟩
    rcases Nat.lt_or_ge timeout answer.delay with late | prompt
    · cases compatible.symm.trans (judge_of_late late)
    · cases result : answer.result with
      | error reason => cases compatible.symm.trans (judge_of_error prompt result)
      | ok out =>
          have delivers : answer.Delivers timeout out := ⟨prompt, result⟩
          rw [judge_of_delivers delivers] at compatible
          exact ⟨out, delivers, classify_compatible_iff.mp ⟨observed, compatible⟩⟩
  · rintro ⟨out, delivers, enough⟩
    rw [judge_of_delivers delivers]
    exact classify_compatible_iff.mpr enough

/-! ## The main statement -/

/-- **A verification is exact.** For every disk, path, runner, time limit and list of requirements,
and whatever the runner answers and when:

* the runner is not called if and only if there is nothing at the path, and the verdict says so with
  that path;
* otherwise it is called exactly once, with the path and the script for the requirements;
* the verdict is *compatible* if and only if there is something at the path, and the answer is an
  output that comes in time, of a run that succeeded, with one sufficient version for each
  requirement;
* an output that comes in time is classified;
* an answer that comes too late, and one without an output, make the verdict *failed*, with the
  reason. -/
theorem verification_is_exact (d : Disk) (cwd : Location) (path : String) (run : Call → Answer)
    (timeout : Nat) (rs : List Requirement) :
    let (verdict, calls) := verify path (d.occupied cwd path) run timeout rs
    let call : Call := ⟨path, ["-c", script rs]⟩
    (calls = [] ↔ ¬ d.Has cwd path) ∧
    (¬ d.Has cwd path → verdict = .notFound path) ∧
    (d.Has cwd path → calls = [call]) ∧
    ((∃ observed, verdict = .compatible observed) ↔
      d.Has cwd path ∧ ∃ out, (run call).Delivers timeout out ∧ out.Suffices rs) ∧
    (∀ out, d.Has cwd path → (run call).Delivers timeout out → verdict = classify out rs) ∧
    (d.Has cwd path → timeout < (run call).delay →
      verdict = .failed ("probe timed out after " ++ showSeconds timeout ++ "s")) ∧
    (∀ reason, d.Has cwd path → (run call).delay ≤ timeout → (run call).result = .error reason →
      verdict = .failed ("failed to run interpreter: " ++ reason)) := by
  dsimp only [verify]
  rw [← Disk.occupied_iff]
  cases there : d.occupied cwd path with
  | false =>
      refine ⟨by simp, fun _ => rfl, nofun, ⟨nofun, nofun⟩, nofun, nofun, nofun⟩
  | true =>
      refine ⟨by simp, fun absent => absurd rfl absent, fun _ => rfl, ?_, ?_, ?_, ?_⟩
      · exact judge_compatible_iff.trans ⟨fun way => ⟨rfl, way⟩, And.right⟩
      · exact fun _ _ delivers => judge_of_delivers delivers
      · exact fun _ late => judge_of_late late
      · exact fun _ _ prompt error => judge_of_error prompt error

/-- What an interpreter with both libraries prints. -/
def equipped : Output := ⟨true, some 0, "1.0.0 3.4.4\n", ""⟩

theorem suffices_equipped : equipped.Suffices Requirement.defaults := by
  have untagged : Version.readTag [] = (none, none) := by
    simp [Version.readTag, Version.implicitPost?, Version.splitPost, Version.splitPostFrom]
  have first : ReadsAs "1.0.0".toList
      ⟨[1, 0, 0], (Version.readTag []).1, (Version.readTag []).2, "1.0.0"⟩ := rfl
  have second : ReadsAs "3.4.4".toList
      ⟨[3, 4, 4], (Version.readTag []).1, (Version.readTag []).2, "3.4.4"⟩ := rfl
  rw [untagged] at first second
  refine ⟨rfl, _, ⟨["1.0.0".toList, "3.4.4".toList], Text.splits_iff.mpr (by decide), rfl,
    .cons first (.cons second .nil)⟩,
    List.forall_mem_cons.mpr ⟨?_, List.forall_mem_singleton.mpr ?_⟩⟩
  all_goals
    simp only [Version.satisfies, Version.compare, Version.compareRelease, Version.ofRelease]
    decide

/-- The disk with nothing but a file `python` has something at that path. -/
theorem has_python : (Disk.single "python" []).Has [] "python" := by
  have named : Disk.IsFileName "python" :=
    ⟨⟨by decide, by decide, by decide⟩, ⟨by decide, by decide, by decide⟩, by decide, by decide⟩
  obtain ⟨isPath, leads⟩ := Disk.find_eq_ok_iff.mp (Disk.find_single named true)
  exact ⟨isPath, _, _, leads⟩

/-- The same output is worth all or nothing, depending on whether it comes at the last moment or a
millisecond after it. -/
theorem verification_is_exact_last_moment :
    let d := Disk.single "python" []
    let verdict := fun delay : Nat => (verify "python" (d.occupied [] "python")
      (fun _ => ⟨.ok equipped, delay⟩) 10000 Requirement.defaults).1
    d.Has [] "python" ∧ (∃ observed, verdict 10000 = .compatible observed) ∧
      verdict 10001 = .failed ("probe timed out after " ++ showSeconds 10000 ++ "s") := by
  refine ⟨has_python, ?_, ?_⟩
  · obtain ⟨_, _, _, compatible, _⟩ := verification_is_exact (Disk.single "python" []) [] "python"
      (fun _ => ⟨.ok equipped, 10000⟩) 10000 Requirement.defaults
    exact compatible.mpr ⟨has_python, equipped, ⟨Nat.le_refl _, rfl⟩, suffices_equipped⟩
  · obtain ⟨_, _, _, _, _, late, _⟩ := verification_is_exact (Disk.single "python" []) [] "python"
      (fun _ => ⟨.ok equipped, 10001⟩) 10000 Requirement.defaults
    exact late has_python (Nat.lt_succ_self _)

end Gatekeeper.Probe
