import Gatekeeper.Proofs.Console.Course
import Gatekeeper.Proofs.Session.Candidate
import Gatekeeper.Proofs.Session.Passage

set_option autoImplicit false

/-!
# The order in which commands take effect

Each command is an errand of its own, and errands are not kept in the order of their lines: one that
reads a file is overtaken, and the session may be over before an errand has run at all
(`not_in_the_order_typed`). What is kept is the order in which the errands ask for the controller
(`commands_take_effect_as_they_ask`). So a command has its effects before those whose lines are read
once it has asked; and where every errand has asked before the next line is read, commands take
effect in the order typed, and nothing happens after the deactivation.
-/

namespace Gatekeeper.Console.Floor

open Session

/-! ## Who comes first -/

/-- Of two lists that begin alike, what is in the first part of one comes before what is in the
other but not in that part. -/
theorem pair_sublist {α : Type} {served waiting first later : List α} {a b : α}
    (same : served ++ waiting = first ++ later) (early : a ∈ first) (late : b ∉ first)
    (both : b ∈ served) : [a, b].Sublist served := by
  -- one list ends within the other: within the first part nothing that is late is served
  rcases List.append_eq_append_iff.mp same with ⟨rest, rfl, rfl⟩ | ⟨rest, rfl, rfl⟩
  · exact absurd (List.mem_append_left _ both) late
  · have member : b ∈ rest := (List.mem_append.mp both).resolve_left late
    exact (List.singleton_sublist.mpr early).append (List.singleton_sublist.mpr member)

/-- In a list without repetitions no two elements come before one another. -/
theorem not_pair_sublist {α : Type} {l : List α} {a b : α} (nodup : l.Nodup)
    (one : [a, b].Sublist l) (other : [b, a].Sublist l) : False := by
  induction l with
  | nil => cases one
  | cons x l ih =>
      obtain ⟨fresh, rest⟩ := List.nodup_cons.mp nodup
      cases one with
      | cons _ one =>
          cases other with
          | cons _ other => exact ih rest one other
          | cons_cons _ other =>
              exact fresh (one.subset (List.mem_cons_of_mem _ List.mem_cons_self))
      | cons_cons _ one =>
          cases other with
          | cons _ other =>
              exact fresh (other.subset (List.mem_cons_of_mem _ List.mem_cons_self))
          | cons_cons _ other => exact fresh (one.subset List.mem_cons_self)

theorem ne_of_pair_sublist {α : Type} {l : List α} {a b : α} (nodup : l.Nodup)
    (pair : [a, b].Sublist l) : a ≠ b := by
  rintro rfl
  exact not_pair_sublist nodup pair pair

namespace Course

variable {settings : Settings} {s : Surroundings} {lines : List String} {f : Floor} {h k : Log}

theorem settled_nodup (course : Course settings (opening settings s lines) h f) : h.settled.Nodup :=
  (List.nodup_append.mp (course.kept.accounted.nodup_iff.mpr List.nodup_range)).1

theorem begun_within (course : Course settings (opening settings s lines) h f) :
    h.begun <+: h.asked := ⟨_, course.kept.served⟩

theorem begun_nodup (course : Course settings (opening settings s lines) h f) : h.begun.Nodup :=
  course.begun_within.sublist.nodup (h.asked_sublist.nodup course.settled_nodup)

theorem lt_next (course : Course settings (opening settings s lines) h f) {i : Nat}
    (settled : i ∈ h.settled) : i < f.next :=
  List.mem_range.mp (course.kept.accounted.subset (List.mem_append_left _ settled))

theorem lt_next_of_begun (course : Course settings (opening settings s lines) h f) {i : Nat}
    (begun : i ∈ h.begun) : i < f.next :=
  course.lt_next (h.asked_sublist.subset (course.begun_within.subset begun))

/-- An errand is numbered above all that are there. -/
theorem lt_of_sent {j : Nat} {duty : Duty}
    (course : Course settings (opening settings s lines) (h ++ .sent j duty :: k) f) {i : Nat}
    (settled : i ∈ h.settled) : i < j := by
  obtain ⟨m, m', past, step, _⟩ := course.cut
  cases step <;> exact past.lt_next settled

/-- **What asks before a line is read is served before it.** -/
theorem served_first {i j : Nat} {duty : Duty}
    (course : Course settings (opening settings s lines) (h ++ .sent j duty :: k) f)
    (asked : i ∈ h.asked) (served : j ∈ Log.begun (h ++ .sent j duty :: k)) :
    [i, j].Sublist (Log.begun (h ++ .sent j duty :: k)) := by
  have all := course.kept.served
  rw [Log.asked_append] at all
  refine pair_sublist all asked ?_ served
  intro member
  exact Nat.lt_irrefl _ (course.lt_of_sent (h.asked_sublist.subset member))

/-- An errand that settles early and is served has asked early. -/
theorem asked_of_settled {i : Nat} (course : Course settings (opening settings s lines) (h ++ k) f)
    (settled : i ∈ h.settled) (served : i ∈ Log.begun (h ++ k)) : i ∈ h.asked := by
  have asked := course.begun_within.subset served
  rw [Log.asked_append] at asked
  rcases List.mem_append.mp asked with early | late
  · exact early
  · have nodup := course.settled_nodup
    rw [Log.settled, List.filterMap_append] at nodup
    exact absurd (k.asked_sublist.subset late) (List.disjoint_of_nodup_append nodup settled)

/-- An errand that settles before a line is read is not served after the errand of that line. -/
theorem first_of_settled {i j : Nat} {duty : Duty}
    (course : Course settings (opening settings s lines) (h ++ .sent j duty :: k) f)
    (settled : i ∈ h.settled) (one : i ∈ Log.begun (h ++ .sent j duty :: k))
    (other : j ∈ Log.begun (h ++ .sent j duty :: k)) :
    [i, j].Sublist (Log.begun (h ++ .sent j duty :: k)) :=
  course.served_first (course.asked_of_settled settled one) other

/-- An answer goes to the errand that got the controller last. -/
theorem getLast_begun_of_answered {i : Nat} {stage : Stage} {a : stage.Answer} {turn : Turn}
    (course : Course settings (opening settings s lines)
      (h ++ .happened (.answered i stage a turn) :: k) f) : h.begun.getLast? = some i := by
  obtain ⟨m, m', past, step, _⟩ := course.cut
  cases step with
  | answer move =>
      cases move with
      | answer holds s => exact past.kept.holds _ _ holds

end Course

/-! ## The end of a session -/

section

variable {settings : Settings} {f f' : Floor} {h k : Log} {e : Option Entry}

/-- Reading has ended, and the last errand `d` does nothing but deactivate the controller. -/
structure Deactivates (d : Nat) (f : Floor) : Prop where
  closed : f.closed = true
  next_eq : f.next = d + 1
  errands : ∀ duty, ⟨d, duty⟩ ∈ f.errands → duty = .operation .deactivate
  line : ∀ command, (d, command) ∈ f.crowd.line → command = .deactivate
  holder : ∀ stage, f.crowd.holder = some (d, stage) →
    ∃ session, stage = .stopping session .deactivate

/-- When reading ends, the errand that deactivates the controller has a new number. -/
theorem Kept.deactivates_close (kept : Kept h f) : Deactivates f.next f.close := by
  have fresh : ∀ k ∈ h.settled ++ f.errands.map Errand.number, k ≠ f.next :=
    fun k member => Nat.ne_of_lt (List.mem_range.mp (kept.accounted.subset member))
  have asked : ∀ k ∈ h.begun ++ f.crowd.line.map Prod.fst, k ≠ f.next := by
    intro k member
    rw [kept.served] at member
    exact fresh k (List.mem_append_left _ (h.asked_sublist.subset member))
  refine ⟨rfl, rfl, ?_, ?_, ?_⟩
  · intro duty member
    rcases List.mem_append.mp member with old | new
    · exact absurd rfl (fresh _ (List.mem_append_right _ (List.mem_map_of_mem old)))
    · cases List.mem_singleton.mp new
      rfl
  · intro command member
    exact absurd rfl (asked _ (List.mem_append_right _ (List.mem_map_of_mem member)))
  · intro stage holds
    have last := List.mem_of_getLast? (kept.holds _ _ holds)
    exact absurd rfl (asked _ (List.mem_append_left _ last))

theorem Step.deactivates_of_sent {d : Nat} (kept : Kept h f)
    (step : Step settings f (some (.sent d (.operation .deactivate))) f') : Deactivates d f' := by
  cases step with
  | @send line rest c duty isOpen first reads needs => exact absurd needs c.duty_ne_deactivate
  | quit isOpen first reads => exact kept.deactivates_close
  | close isOpen ends => exact kept.deactivates_close

/-- Who asks for a launch has the controller and waits for the server. -/
theorem Step.holder_of_launcher {x : Entry} {i : Nat} (step : Step settings f (some x) f')
    (asks : x.launcher? = some i) :
    ∃ session interpreter, f'.crowd.holder = some (i, .launching session interpreter) := by
  -- only a turn asks for a launch, and at its end the errand waits for the server
  cases step with
  | @begin k command rest free first s turn takes =>
      obtain ⟨who, _, session, interpreter, same, waits⟩ := Entry.waits_of_launcher asks
      cases who
      cases same
      refine ⟨session, interpreter, ?_⟩
      rw [Crowd.holder_turned, waits]
      rfl
  | @answer k stage a turn crowd move =>
      obtain ⟨who, _, session, interpreter, same, waits⟩ := Entry.waits_of_launcher asks
      cases who
      cases same
      refine ⟨session, interpreter, ?_⟩
      cases move with
      | answer holds s =>
          rw [Crowd.holder_turned, waits]
          rfl
  | ask ready move =>
      obtain ⟨who, _⟩ := Entry.waits_of_launcher asks
      cases who
  | _ => cases asks

/-- An errand that is still there was there before another one left. -/
theorem mem_of_removed {before behind : List Errand} {errand x : Errand}
    (here : f.errands = before ++ errand :: behind) (member : x ∈ before ++ behind) :
    x ∈ f.errands := by
  rw [here]
  exact ((List.sublist_cons_self errand behind).append_left before).subset member

/-- **The deactivation goes no further than the shutdown of a server.** -/
theorem Step.deactivates {d : Nat} (step : Step settings f e f') (before : Deactivates d f) :
    Deactivates d f' := by
  obtain ⟨closed, next_eq, errands, line, holder⟩ := before
  cases step with
  | send isOpen _ _ _ => cases closed.symm.trans isOpen
  | pass isOpen _ _ => cases closed.symm.trans isOpen
  | quit isOpen _ _ => cases closed.symm.trans isOpen
  | close isOpen _ => cases closed.symm.trans isOpen
  | report isOpen _ => cases closed.symm.trans isOpen
  | @read k path before behind reads absolute text =>
      refine ⟨closed, next_eq, ?_, line, holder⟩
      intro duty member
      rw [reads] at errands
      rcases List.mem_append.mp member with early | member
      · exact errands duty (List.mem_append_left _ early)
      · cases member with
        | head => cases errands _ (List.mem_append_right _ List.mem_cons_self)
        | tail _ late => exact errands duty (List.mem_append_right _ (List.mem_cons_of_mem _ late))
  | drop reads =>
      exact ⟨closed, next_eq, fun duty member => errands duty (mem_of_removed reads member), line,
        holder⟩
  | @ask k o before behind effects outcome crowd ready move =>
      have others := fun duty member => errands duty (mem_of_removed ready member)
      cases move with
      | dismiss accepted k => exact ⟨closed, next_eq, others, line, holder⟩
      | @queue s o told asked accepted k =>
          refine ⟨closed, next_eq, others, ?_, holder⟩
          intro command member
          rcases List.mem_append.mp member with waiting | last
          · exact line command waiting
          · cases List.mem_singleton.mp last
            rw [ready] at errands
            cases errands _ (List.mem_append_right _ List.mem_cons_self)
            exact (Operation.eq_of_accept accepted).2
  | @begin k command rest free first s turn takes =>
      refine ⟨closed, next_eq, errands, ?_, ?_⟩
      · intro command member
        rw [Crowd.line_turned] at member
        exact line command (first ▸ List.mem_cons_of_mem _ member)
      · intro stage holds
        obtain ⟨rfl, waits⟩ := Crowd.waiting_of_holder_turned holds
        cases line command (first ▸ List.mem_cons_self)
        rw [← takes] at waits
        cases Controller.opens_of_begin waits with
        | deactivate held => exact ⟨_, rfl⟩
  | @answer k stage a turn crowd move =>
      cases move with
      | answer holds s =>
          refine ⟨closed, next_eq, errands, ?_, ?_⟩
          · intro command member
            rw [Crowd.line_turned] at member
            exact line command member
          · intro stage' holds'
            obtain ⟨rfl, waits⟩ := Crowd.waiting_of_holder_turned holds'
            obtain ⟨session, rfl⟩ := holder stage holds
            cases Controller.leads_of_resume waits

theorem Course.deactivates {d : Nat} (course : Course settings f h f') (before : Deactivates d f) :
    Deactivates d f' := by
  induction course with
  | nil => exact before
  | snoc _ step ih => exact step.deactivates ih

/-- An interpreter is bound only when a launch is asked for. -/
theorem Course.bound_eq (course : Course settings f h f')
    (fits : f.crowd.controller.Fits f.crowd.stage?) (silent : h.launchers = []) :
    f'.crowd.controller.bound = f.crowd.controller.bound := by
  refine course.chronicle.bound_eq fits ?_
  intro e member
  obtain ⟨x, here, same⟩ := List.mem_filterMap.mp member
  have none := List.filterMap_eq_nil_iff.mp silent x here
  cases x with
  | happened e' =>
      cases same
      exact Entry.calls_of_launcher none
  | _ => cases same

end

/-- Reading ends after `past`, and `later` is what is seen once the errand `d`, which is to
deactivate the controller, has got it and taken a turn. -/
def Log.Ending (h past : Log) (d : Nat) (turn : Turn) (later : Log) : Prop :=
  ∃ mid command, h = past ++ .sent d (.operation .deactivate) ::
    (mid ++ .happened (.began d command turn) :: later)

namespace Course

variable {settings : Settings} {s : Surroundings} {lines : List String} {f : Floor}
  {h past later : Log} {d i : Nat} {turn : Turn}

/-- Who asks for a launch got the controller last. -/
theorem getLast_begun_of_launcher {x : Entry}
    (course : Course settings (opening settings s lines) (past ++ x :: later) f)
    (asks : x.launcher? = some i) : (Log.begun (past ++ [x])).getLast? = some i := by
  obtain ⟨m, m', before, step, _⟩ := course.cut
  obtain ⟨session, interpreter, holds⟩ := step.holder_of_launcher asks
  exact (before.snoc step).kept.holds _ _ holds

/-- The deactivation asks for no launch. -/
theorem not_mem_launchers
    (course : Course settings (opening settings s lines)
      (past ++ .sent d (.operation .deactivate) :: later) f) : d ∉ later.launchers := by
  intro member
  obtain ⟨x, here, asks⟩ := List.mem_filterMap.mp member
  obtain ⟨m, m', before, sent, after⟩ := course.cut
  have start : Deactivates d m' := sent.deactivates_of_sent before.kept
  obtain ⟨early, late, rfl⟩ := List.append_of_mem here
  obtain ⟨n, n', upto, step, _⟩ := after.cut
  obtain ⟨session, interpreter, holds⟩ := step.holder_of_launcher asks
  obtain ⟨_, same⟩ := (step.deactivates (upto.deactivates start)).holder _ holds
  cases same

/-- After the deactivation only an errand that gets the controller asks for a launch. -/
theorem begun_of_launcher (course : Course settings (opening settings s lines) h f)
    (ending : h.Ending past d turn later) (launches : i ∈ later.launchers) : i ∈ later.begun := by
  obtain ⟨mid, command, rfl⟩ := ending
  obtain ⟨x, here, asks⟩ := List.mem_filterMap.mp launches
  obtain ⟨early, late, rfl⟩ := List.append_of_mem here
  -- the errand got the controller last, which was not before the deactivation got it
  have last : (Log.begun ((past ++ .sent d (.operation .deactivate) :: mid) ++
      .happened (.began d command turn) :: (early ++ [x]))).getLast? = some i := by
    have split := course
    rw [← List.cons_append, ← List.cons_append, ← List.append_assoc, ← List.append_assoc] at split
    simpa using split.getLast_begun_of_launcher asks
  have member : i ∈ d :: Log.begun (early ++ [x]) := by
    rw [Log.begun_append] at last
    change (_ ++ d :: Log.begun (early ++ [x])).getLast? = some i at last
    rw [List.getLast?_append_of_ne_nil _ (List.cons_ne_nil _ _)] at last
    exact List.mem_of_getLast? last
  rcases List.mem_cons.mp member with rfl | begun
  · refine absurd ?_ course.not_mem_launchers
    exact List.mem_filterMap.mpr ⟨x, by simp, asks⟩
  · rw [← List.singleton_append, ← List.append_assoc, Log.begun_append]
    exact List.mem_append_left _ begun

/-- **Only an errand that had not settled when reading ended gets the controller after the
deactivation.** -/
theorem late_of_begun (course : Course settings (opening settings s lines) h f)
    (ending : h.Ending past d turn later) (begun : i ∈ later.begun) :
    i < d ∧ i ∉ past.settled := by
  obtain ⟨mid, command, rfl⟩ := ending
  have order : [d, i].Sublist (Log.begun (past ++ .sent d (.operation .deactivate) ::
      (mid ++ .happened (.began d command turn) :: later))) := by
    rw [← List.cons_append, ← List.append_assoc, Log.begun_append]
    refine List.Sublist.trans ?_ (List.sublist_append_right _ _)
    exact (List.singleton_sublist.mpr begun).cons_cons d
  have served := order.subset
  constructor
  · obtain ⟨m, m', before, sent, after⟩ := course.cut
    have next_eq := (after.deactivates (sent.deactivates_of_sent before.kept)).next_eq
    have lt := course.lt_next_of_begun (served (List.mem_cons_of_mem _ List.mem_cons_self))
    have distinct := ne_of_pair_sublist course.begun_nodup order
    omega
  · -- had it settled before, it would have been served before
    intro settled
    have first := course.first_of_settled settled
      (served (List.mem_cons_of_mem _ List.mem_cons_self)) (served List.mem_cons_self)
    exact not_pair_sublist course.begun_nodup order first

/-- After the deactivation an interpreter is bound only with a launch. -/
theorem bound_eq_of_ending (course : Course settings (opening settings s lines) h f)
    (ending : h.Ending past d turn later) (silent : later.launchers = []) :
    f.crowd.controller.bound = turn.state.bound := by
  obtain ⟨mid, command, rfl⟩ := ending
  rw [← List.cons_append, ← List.append_assoc] at course
  obtain ⟨m, m', before, step, after⟩ := course.cut
  have fits := (before.snoc step).chronicle.fits (Controller.atRest_initial settings s)
  refine (after.bound_eq fits silent).trans ?_
  cases step with
  | begin free first s takes => rw [Crowd.controller_turned]

end Course

/-! ## The main statement -/

/-- Every errand has settled before the next one is begun. -/
def Prompt (h : Log) : Prop :=
  ∀ (past later : Log) j duty, h = past ++ .sent j duty :: later → ∀ i < j, i ∈ past.settled

theorem prompt_nil : Prompt [] := by
  intro past later j duty split
  simp at split

theorem Prompt.snoc {h : Log} {e : Entry} (prompt : Prompt h)
    (all : ∀ j duty, e = .sent j duty → ∀ i < j, i ∈ h.settled) : Prompt (h ++ [e]) := by
  intro past later j duty split i lt
  rcases List.eq_nil_or_concat later with rfl | ⟨later, x, rfl⟩
  · obtain ⟨rfl, same⟩ := List.append_inj' split rfl
    cases same
    exact all j duty rfl i lt
  · rw [List.concat_eq_append, ← List.cons_append, ← List.append_assoc] at split
    obtain ⟨rfl, -⟩ := List.append_inj' split rfl
    exact prompt past later j duty rfl i lt

/-- An errand is begun promptly where none is under way. -/
theorem Prompt.send {h : Log} {f : Floor} (prompt : Prompt h) (kept : Kept h f)
    (idle : f.errands = []) (duty : Duty) : Prompt (h ++ [.sent f.next duty]) := by
  refine prompt.snoc ?_
  rintro j duty ⟨⟩ i lt
  have all := kept.accounted.mem_iff.mpr (List.mem_range.mpr lt)
  rwa [idle, List.map_nil, List.append_nil] at all

/-- Commands take effect in the order typed. -/
def InOrder (h : Log) : Prop := h.begun.Pairwise (· < ·)

/-- The deactivation comes last: once it has got the controller no other errand gets it, none asks
for a launch, and the interpreter that is bound stays. -/
def EndsLast (h : Log) (f : Floor) : Prop :=
  ∀ past d turn later, h.Ending past d turn later →
    later.begun = [] ∧ later.launchers = [] ∧ f.crowd.controller.bound = turn.state.bound

namespace Course

variable {settings : Settings} {s : Surroundings} {lines : List String} {f : Floor} {h : Log}

theorem inOrder_of_prompt (course : Course settings (opening settings s lines) h f)
    (prompt : Prompt h) : InOrder h := by
  refine List.pairwise_iff_forall_sublist.mpr ?_
  intro i j order
  have served := order.subset
  have begun : j ∈ h.begun := served (List.mem_cons_of_mem _ List.mem_cons_self)
  -- a later number that got the controller first was begun after the other one had settled
  by_contra above
  have lt : j < i :=
    Nat.lt_of_le_of_ne (Nat.not_lt.mp above) (ne_of_pair_sublist course.begun_nodup order).symm
  have sent : i ∈ 0 :: h.sent := by
    rw [course.kept.sent_eq, List.mem_range]
    exact course.lt_next_of_begun (served List.mem_cons_self)
  have sent : i ∈ h.sent := (List.mem_cons.mp sent).resolve_left (Nat.ne_zero_of_lt lt)
  obtain ⟨x, here, same⟩ := List.mem_filterMap.mp sent
  obtain ⟨past, later, rfl⟩ := List.append_of_mem here
  cases x with
  | sent k duty =>
      cases same
      have first := course.first_of_settled (prompt past later i duty rfl j lt) begun
        (served List.mem_cons_self)
      exact not_pair_sublist course.begun_nodup order first
  | _ => cases same

theorem endsLast_of_prompt (course : Course settings (opening settings s lines) h f)
    (prompt : Prompt h) : EndsLast h f := by
  intro past d turn later ending
  have none : later.begun = [] := by
    refine List.eq_nil_iff_forall_not_mem.mpr ?_
    intro i begun
    obtain ⟨lt, late⟩ := course.late_of_begun ending begun
    obtain ⟨mid, command, split⟩ := ending
    exact late (prompt past _ d _ split i lt)
  have silent : later.launchers = [] := by
    refine List.eq_nil_iff_forall_not_mem.mpr ?_
    intro i launches
    have begun := course.begun_of_launcher ending launches
    rw [none] at begun
    cases begun
  exact ⟨none, silent, course.bound_eq_of_ending ending silent⟩

end Course

/-- **Commands take effect in the order in which their errands ask for the controller.** The
controller is given to one errand at a time, in that order, and each answer goes to the errand that
has it. An errand that asks before a line is read is served before the errand of that line. Only an
errand that had not settled when reading ended can get the controller after the deactivation, or ask
for a launch then, and without a launch the interpreter stays. So if every errand settles before the
next one is begun, commands take effect in the order typed, and nothing happens after the
deactivation. -/
theorem commands_take_effect_as_they_ask {settings : Settings} {s : Surroundings}
    {lines : List String} {h : Log} {f : Floor}
    (course : Course settings (opening settings s lines) h f) :
    (h.begun ++ f.crowd.line.map Prod.fst = h.asked ∧ h.asked.Nodup) ∧
    (∀ (past later : Log) i stage a turn,
      h = past ++ .happened (.answered i stage a turn) :: later → past.begun.getLast? = some i) ∧
    (∀ (past later : Log) j duty, h = past ++ .sent j duty :: later →
      ∀ i ∈ past.asked, j ∈ h.begun → [i, j].Sublist h.begun) ∧
    (∀ past d turn later, h.Ending past d turn later →
      (∀ i, i ∈ later.begun ∨ i ∈ later.launchers → i < d ∧ i ∉ past.settled) ∧
      (later.launchers = [] → f.crowd.controller.bound = turn.state.bound)) ∧
    (Prompt h → InOrder h ∧ EndsLast h f) := by
  refine ⟨⟨course.kept.served, h.asked_sublist.nodup course.settled_nodup⟩, ?_, ?_, ?_, ?_⟩
  · rintro past later i stage a turn rfl
    exact course.getLast_begun_of_answered
  · rintro past later j duty rfl i asked served
    exact course.served_first asked served
  · intro past d turn later ending
    refine ⟨?_, course.bound_eq_of_ending ending⟩
    rintro i (begun | launches)
    · exact course.late_of_begun ending begun
    · exact course.late_of_begun ending (course.begun_of_launcher ending launches)
  · intro prompt
    exact ⟨course.inOrder_of_prompt prompt, course.endsLast_of_prompt prompt⟩

/-! ## Two sessions -/

open Crowd

/-- The session after an activation that launched a server. -/
def activated (lines : List String) : Floor where
  lines := lines
  next := 1
  crowd :=
    { controller :=
        { phase := .running, bound := some "/venv/bin/python",
          preferred := some "/venv/bin/python", server := some ⟨1⟩, next := ⟨2⟩,
          published := ⟨.running, some "/venv/bin/python"⟩ },
      results := [(0, .done)] }

theorem course_activated (lines : List String) :
    ∃ h, Course {} (opening {} simpleHost lines) h (activated lines) ∧ h.begun = [0] ∧
      Prompt h := by
  have course : Course {} (opening {} simpleHost lines) [] (opening {} simpleHost lines) := .nil
  have course := course
    |>.snoc (@Step.ask _ _ 0 .activate [] [] _ _ _ rfl (.queue (s := simpleHost) rfl 0))
    |>.snoc (@Step.begin _ _ 0 .start [] rfl rfl simpleHost _ rfl)
    |>.snoc (.answer (@Move.answer _ _ 0 (.verifying "/venv/bin/python" false) rfl simpleHost
      (Verdict.compatible [])))
    |>.snoc (.answer (@Move.answer _ _ 0 (.launching ⟨1⟩ "/venv/bin/python") rfl simpleHost
      (Except.ok ())))
  refine ⟨_, course, rfl, ?_⟩
  iterate 4 refine .snoc ?_ nofun
  exact prompt_nil

/-- A restart is over before the user quits, so the deactivation comes last. -/
theorem commands_take_effect_as_they_ask_restart :
    ∃ h f, Course {} (opening {} simpleHost ["restart", "quit"]) h f ∧ Prompt h ∧
      h.begun = [0, 1, 2] ∧ InOrder h ∧ EndsLast h f := by
  obtain ⟨h, course, begun, prompt⟩ := course_activated ["restart", "quit"]
  have restarted := course
    |>.snoc (@Step.send _ _ _ _ .restart (.operation .restart) rfl rfl (by decide) rfl)
    |>.snoc (@Step.ask _ _ 1 .restart [] [] _ _ _ rfl (.queue (s := simpleHost) rfl 1))
    |>.snoc (@Step.begin _ _ 1 .restart [] rfl rfl simpleHost _ rfl)
    |>.snoc (.answer (@Move.answer _ _ 1 (.stopping ⟨1⟩ .start) rfl simpleHost ()))
    |>.snoc (.answer (@Move.answer _ _ 1 (.verifying "/venv/bin/python" false) rfl simpleHost
      (Verdict.compatible [])))
    |>.snoc (.answer (@Move.answer _ _ 1 (.launching ⟨2⟩ "/venv/bin/python") rfl simpleHost
      (Except.ok ())))
  have ended := restarted
    |>.snoc (@Step.quit _ _ _ _ rfl rfl (by decide))
    |>.snoc (@Step.ask _ _ 2 .deactivate [] [] _ _ _ rfl (.queue (s := simpleHost) rfl 2))
    |>.snoc (@Step.begin _ _ 2 .deactivate [] rfl rfl simpleHost _ rfl)
    |>.snoc (.answer (@Move.answer _ _ 2 (.stopping ⟨2⟩ .deactivate) rfl simpleHost ()))
  refine ⟨_, _, ended, ?prompt, ?order, (commands_take_effect_as_they_ask ended).2.2.2.2 ?prompt⟩
  case prompt =>
    iterate 3 refine .snoc ?_ nofun
    refine .send ?_ restarted.kept rfl _
    iterate 5 refine .snoc ?_ nofun
    exact prompt.send course.kept rfl _
  case order =>
    simp only [Option.toList_some, Log.begun_append, begun]
    rfl

/-- **Commands need not take effect in the order typed.** The user quits before the errands of the
other two lines have asked for the controller. The deactivation gets it first, then the restart,
which launches another server, and then the document is shown to that one. -/
theorem not_in_the_order_typed :
    ∃ h f, Course {} (opening {} simpleHost ["open doc.cfg", "restart", "quit"]) h f ∧
      ¬ InOrder h ∧ ¬ EndsLast h f := by
  obtain ⟨h, course, begun, -⟩ := course_activated ["open doc.cfg", "restart", "quit"]
  have course := course
    |>.snoc (@Step.send _ _ _ _ (.open "doc.cfg") (.document "doc.cfg") rfl rfl (by decide) rfl)
    |>.snoc (@Step.send _ _ _ _ .restart (.operation .restart) rfl rfl (by decide) rfl)
    |>.snoc (@Step.quit _ _ _ _ rfl rfl (by decide))
    |>.snoc (@Step.ask _ _ 3 .deactivate [⟨1, .document "doc.cfg"⟩, ⟨2, .operation .restart⟩] []
      _ _ _ rfl (.queue (s := simpleHost) rfl 3))
    |>.snoc (@Step.begin _ _ 3 .deactivate [] rfl rfl simpleHost _ rfl)
    |>.snoc (.answer (@Move.answer _ _ 3 (.stopping ⟨1⟩ .deactivate) rfl simpleHost ()))
    |>.snoc (@Step.ask _ _ 2 .restart [⟨1, .document "doc.cfg"⟩] [] _ _ _
      rfl (.queue (s := simpleHost) rfl 2))
    |>.snoc (@Step.begin _ _ 2 .restart [] rfl rfl simpleHost _ rfl)
    |>.snoc (.answer (@Move.answer _ _ 2 (.verifying "/venv/bin/python" false) rfl simpleHost
      (Verdict.compatible [])))
    |>.snoc (.answer (@Move.answer _ _ 2 (.launching ⟨2⟩ "/venv/bin/python") rfl simpleHost
      (Except.ok ())))
    |>.snoc (@Step.read _ _ 1 "doc.cfg" [] [] rfl "/doc.cfg" "")
    |>.snoc (@Step.ask _ _ 1 (.openDocument "/doc.cfg" "") [] [] _ _ _
      rfl (.queue (s := simpleHost) rfl 1))
    |>.snoc (@Step.begin _ _ 1 (.openDocument "/doc.cfg" "") [] rfl rfl simpleHost _ rfl)
    |>.snoc (.answer (@Move.answer _ _ 1 (.opening ⟨2⟩ "/doc.cfg" "") rfl simpleHost true))
  simp only [Option.toList_some, List.append_assoc, List.cons_append, List.nil_append] at course
  refine ⟨_, _, course, ?_, ?_⟩
  · intro order
    rw [InOrder, Log.begun_append, begun] at order
    exact absurd order (by decide)
  · intro last
    have ended := last (h ++ [_, _]) 3 _ _ ⟨[_], _, by
      simp only [List.append_assoc, List.cons_append, List.nil_append]
      rfl⟩
    cases ended.1

end Gatekeeper.Console.Floor
