import Gatekeeper.Proofs.Session.Chronicle

set_option autoImplicit false

/-!
# How the controller passes from one moment to the next

The invariant of the controller is `Fits`: what its fields say of one another, at rest and at each
stage. A move of a crowd takes the controller on one of six ways (`Passage`), which are told apart
by what becomes of the server; `Move.passage` is the only place where the moves are taken apart.
That a passage keeps the invariant is `Passage.fits`, and so it holds along every chronicle
(`Chronicle.fits`).
-/

namespace Gatekeeper.Session

namespace Controller

/-! ## The invariant -/

/-- A controller that has nothing under way. -/
structure AtRest (c : Controller) : Prop where
  phase_eq : c.phase = if c.server.isSome then .running else .stopped
  published_eq : c.published = c.status
  bound_isSome : c.server.isSome → c.bound.isSome
  lt_next : ∀ session, c.server = some session → session.val < c.next.val
  preferred_eq : ∀ interpreter, c.bound = some interpreter → c.preferred = some interpreter

/-- What is true of the controller while an operation is at a stage, or while there is none. -/
def Fits (c : Controller) : Option Stage → Prop
  | some (.stopping session _) => c.server = none ∧ { c with server := some session }.AtRest
  | some (.launching session interpreter) =>
    c.server = none ∧ c.bound = some interpreter ∧ c.preferred = some interpreter ∧
      session.val < c.next.val
  | _ => c.AtRest

/-- Nothing happens to the server at the stage; this includes no stage at all. -/
def Quiet : Option Stage → Prop
  | some (.stopping _ _) => False
  | some (.launching _ _) => False
  | _ => True

theorem atRest_initial (settings : Settings) (s : Surroundings) :
    (Controller.initial settings s).AtRest where
  phase_eq := rfl
  published_eq := rfl
  bound_isSome := fun h => h
  lt_next := fun _ h => by cases h
  preferred_eq := fun _ h => by cases h

variable {c : Controller} {stage : Option Stage}

theorem Fits.atRest (fits : c.Fits stage) (quiet : Quiet stage) : c.AtRest := by
  match stage, quiet with
  | none, _ => exact fits
  | some (.verifying _ _), _ => exact fits
  | some (.opening _ _ _), _ => exact fits

theorem custody_of_quiet (quiet : Quiet stage) : c.custody stage = c.server := by
  match stage, quiet with
  | none, _ => rfl
  | some (.verifying _ _), _ => rfl
  | some (.opening _ _ _), _ => rfl

/-- A controller at rest whose server has gone is at rest once it is stopped. -/
theorem AtRest.stopped {session : Option Id} (rest : { c with server := session }.AtRest)
    (gone : c.server = none) :
    { c with phase := .stopped, published := ⟨.stopped, c.bound⟩ }.AtRest where
  phase_eq := by simp [gone]
  published_eq := rfl
  bound_isSome := by simp [gone]
  lt_next := by simp [gone]
  preferred_eq := rest.preferred_eq

/-- **The six ends fit**, on a controller at rest. -/
theorem Outcome.fits {t : Turn} (o : Outcome c t) (rest : c.AtRest) :
    t.state.Fits t.progress.stage? := by
  cases o with
  | tells events result => exact rest
  | verifies candidate switching => exact rest
  | opens held path text => exact rest
  | stops held next =>
      -- with the server put back this is the controller that was at rest
      refine ⟨rfl, ?_⟩
      rw [← held]
      exact rest
  | launches gone interpreter => exact ⟨gone, rfl, rfl, Nat.lt_succ_self _⟩
  | deactivates gone => exact rest.stopped gone

end Controller

/-! ## The six ways -/

open Controller

/-- How the controller passes from one moment to the next, and what is recorded. -/
inductive Passage (c : Controller) :
    Option Stage → Happening.Entry → Controller → Option Stage → Prop
  /-- An operation arrives, and the controller is left alone. -/
  | arrives (stage : Option Stage) (events : List Event) :
      Passage c stage ⟨events.map .emit, [], [], []⟩ c stage
  /-- A turn is taken, and no server has come or gone since the last one. -/
  | turns {stage : Option Stage} {t : Turn} (quiet : Quiet stage) (o : Outcome c t) :
      Passage c stage ⟨t.effects, askedLaunch t.progress.stage?, [], []⟩ t.state t.progress.stage?
  /-- The server that is held is reported gone. -/
  | exits {session : Id} (held : c.server = some session) :
      Passage c none
        ⟨[.publish ⟨.stopped, c.bound⟩, notice .stopped (some "server exited")], [], [], [session]⟩
        { c with server := none, phase := .stopped, published := ⟨.stopped, c.bound⟩ } none
  /-- The server is down, and a turn is taken on the stopped controller. -/
  | stopped {session : Id} {next : AfterStop} {t : Turn} (o : Outcome (c.enter .stopped).1 t) :
      Passage c (some (.stopping session next))
        ⟨[.publish ⟨.stopped, c.bound⟩, notice .stopped none] ++ t.effects,
          askedLaunch t.progress.stage?, [], [session]⟩
        t.state t.progress.stage?
  /-- The server is up. -/
  | up (session : Id) (interpreter : String) :
      Passage c (some (.launching session interpreter))
        ⟨[.publish ⟨.running, c.bound⟩, notice .started none], [], [(session, interpreter)], []⟩
        { c with server := some session, phase := .running, published := ⟨.running, c.bound⟩ } none
  /-- The launch failed. -/
  | failed (session : Id) (interpreter : String) :
      Passage c (some (.launching session interpreter))
        ⟨[.publish ⟨.stopped, c.bound⟩], [], [], []⟩
        { c with phase := .stopped, published := ⟨.stopped, c.bound⟩ } none

/-- What an operation does before it needs the controller is at most to tell the host something. -/
theorem Operation.accept_effects {o : Operation} {s : Surroundings} {effects : List Effect}
    {outcome : Result ⊕ Command} (h : o.accept s = (effects, outcome)) :
    ∃ events : List Event, effects = events.map .emit := by
  have told := o.told_by_accept s
  rw [h] at told
  rcases told with none | unavailable
  · exact ⟨[], none⟩
  · exact ⟨[.notice .hostUnavailable none], unavailable⟩

/-- The first turn of a command is a passage. -/
theorem passage_begin (c : Controller) (settings : Settings) (s : Surroundings) (k : Nat)
    (command : Command) :
    Passage c none (Happening.began k command (c.begin settings s command)).entry
      (c.begin settings s command).state (c.begin settings s command).progress.stage? := by
  cases command with
  | exited session =>
      by_cases held : c.server = some session
      · rw [begin_exited_held settings s held]
        exact .exits held
      · rw [begin_exited_stale settings s held]
        exact .turns trivial (.tells [] _)
  | _ => exact .turns trivial (outcome_begin c settings s _ (by simp))

/-- The turn after an answer is a passage. -/
theorem passage_resume {c : Controller} {stage : Stage} (fits : c.Fits (some stage))
    (s : Surroundings) (k : Nat) (a : stage.Answer) :
    Passage c (some stage) (Happening.answered k stage a (c.resume s stage a)).entry
      (c.resume s stage a).state (c.resume s stage a).progress.stage? := by
  cases stage with
  | verifying candidate switching =>
      exact .turns trivial (outcome_resume_verifying c s candidate switching a)
  | stopping session next =>
      have gone : (c.enter .stopped).1.server = none := fits.1
      exact .stopped (outcome_afterStop _ s next gone)
  | launching session interpreter =>
      match a with
      | .ok () => exact .up session interpreter
      | .error _ => exact .failed session interpreter
  | opening session path text => exact .turns trivial (.tells [] _)

namespace Crowd

variable {settings : Settings} {c c' : Crowd} {e : Happening}

/-- **Every move takes the controller on one of the six ways.** -/
theorem Move.passage (move : Move settings c e c') (fits : c.controller.Fits c.stage?) :
    Passage c.controller c.stage? e.entry c'.controller c'.stage? := by
  cases move with
  | dismiss accepted k =>
      obtain ⟨events, rfl⟩ := Operation.accept_effects accepted
      exact .arrives _ events
  | queue accepted k =>
      obtain ⟨events, rfl⟩ := Operation.accept_effects accepted
      exact .arrives _ events
  | @begin k command before behind free waits s =>
      rw [controller_turned, stage?_turned, stage?, free]
      exact passage_begin c.controller settings s k command
  | @answer k stage holds s a =>
      have at_stage : c.stage? = some stage := by
        rw [stage?, holds]
        rfl
      -- the invariant says that a server that is going down is not held any more
      rw [at_stage] at fits ⊢
      rw [controller_turned, stage?_turned]
      exact passage_resume fits s k a

end Crowd

/-! ## The invariant along a run -/

namespace Passage

variable {c c' : Controller} {stage stage' : Option Stage} {r : Happening.Entry}

/-- **Every passage keeps the invariant.** -/
theorem fits (way : Passage c stage r c' stage') (before : c.Fits stage) : c'.Fits stage' := by
  cases way with
  | arrives _ events => exact before
  | turns quiet o => exact o.fits (before.atRest quiet)
  | exits held =>
      have rest : c.AtRest := before
      -- the server is dropped before the controller is stopped
      exact @AtRest.stopped { c with server := none } c.server rest rfl
  | stopped o => exact o.fits (before.2.stopped before.1)
  | up session interpreter =>
      obtain ⟨_, bound, preferred, lt⟩ := before
      -- the stage has kept the session and the interpreter that were launched
      refine ⟨rfl, rfl, fun _ => by simp [bound], ?_, ?_⟩
      · intro session' held
        cases held
        exact lt
      · intro interpreter' bound'
        rw [← bound', bound, preferred]
  | failed session interpreter =>
      obtain ⟨gone, bound, preferred, _⟩ := before
      refine ⟨by simp [gone], rfl, by simp [gone], by simp [gone], ?_⟩
      intro interpreter' bound'
      rw [← bound', bound, preferred]

/-- **An interpreter is bound only with a launch.** -/
theorem bound_eq (way : Passage c stage r c' stage') (silent : r.calls = []) :
    c'.bound = c.bound := by
  -- an end of a turn that asks for no launch leaves the interpreter alone
  have outcome : ∀ {n : Controller} {t : Turn}, Outcome n t → askedLaunch t.progress.stage? = [] →
      t.state.bound = n.bound := by
    intro n t o none
    cases o with
    | launches gone interpreter => cases none
    | _ => rfl
  cases way with
  | turns quiet o => exact outcome o silent
  | stopped o => exact (outcome o silent).trans rfl
  | _ => rfl

end Passage

namespace Crowd.Chronicle

variable {settings : Settings} {c₀ c : Crowd} {h : History}

/-- **The invariant holds along every run.** -/
theorem fits (run : Chronicle settings c₀ h c) (start : c₀.controller.Fits c₀.stage?) :
    c.controller.Fits c.stage? := by
  induction run with
  | nil => exact start
  | snoc _ move ih => exact (move.passage ih).fits ih

/-- Where no launch is asked for, the interpreter stays. -/
theorem bound_eq (run : Chronicle settings c₀ h c) (start : c₀.controller.Fits c₀.stage?)
    (silent : ∀ e ∈ h, e.calls = []) : c.controller.bound = c₀.controller.bound := by
  induction run with
  | nil => rfl
  | snoc past move ih =>
      have before := ih fun e member => silent e (List.mem_append_left _ member)
      have last := silent _ (List.mem_append_right _ List.mem_cons_self)
      exact ((move.passage (past.fits start)).bound_eq last).trans before

theorem fits_initial {s : Surroundings} (run : Chronicle settings (.initial settings s) h c) :
    c.controller.Fits c.stage? := run.fits (atRest_initial settings s)

end Crowd.Chronicle

end Gatekeeper.Session
