import Gatekeeper.Proofs.Session.Performance

set_option autoImplicit false

/-!
# Failed launches

A launch binds its interpreter, and announces it to the host, before the launcher is asked. When the
launcher fails, both stay: the operation ends without a server, but the interpreter on which no
server came up is the bound and the preferred one, and the next restart tries it again
(`failed_launch_stays_bound`). What was bound before is not restored
(`not_failed_launch_restores`).
-/

namespace Gatekeeper.Session

/-- The interpreters that the host is told are preferred from now on. -/
def announced (effects : List Effect) : List String :=
  effects.filterMap fun
    | .emit (.bound interpreter) => some interpreter
    | _ => none

theorem announced_append (es fs : List Effect) :
    announced (es ++ fs) = announced es ++ announced fs := List.filterMap_append

namespace Controller

variable {c : Controller} {t : Turn} {stage stage' : Stage} {s : Surroundings}

/-! ## Turns after which an operation goes on -/

/-- A launch announces its interpreter unless it is preferred already. -/
theorem announced_launch (c : Controller) (interpreter : String) :
    announced (c.launch interpreter).effects
      = if c.prefers interpreter then [] else [interpreter] := by
  rw [launch_effects]
  split <;> rfl

/-- The turn goes on to the given stage from `c`: it is a launch on `c`, or it has left the
preference alone. A server that is being stopped is not held any more. -/
inductive GoesOn (c : Controller) (t : Turn) : Stage → Prop
  | quietly {stage : Stage} (quiet : askedLaunch (some stage) = [])
      (preferred_eq : t.state.preferred = c.preferred) (announced_eq : announced t.effects = [])
      (gone : ∀ session next, stage = .stopping session next → t.state.server = none) :
      GoesOn c t stage
  | launching (interpreter : String) (gone : c.server = none)
      (state_eq : t.state = (c.launch interpreter).state)
      (announced_eq : announced t.effects = announced (c.launch interpreter).effects) :
      GoesOn c t (.launching c.next interpreter)

theorem Outcome.goesOn (o : Outcome c t) (waits : t.progress = .waiting stage) :
    GoesOn c t stage := by
  cases o with
  | tells _ _ => cases waits
  | verifies _ _ =>
      cases waits
      exact .quietly rfl rfl rfl (fun _ _ h => by cases h)
  | opens _ _ _ =>
      cases waits
      exact .quietly rfl rfl rfl (fun _ _ h => by cases h)
  | stops _ _ =>
      cases waits
      exact .quietly rfl rfl rfl (fun _ _ _ => rfl)
  | launches gone interpreter =>
      cases waits
      exact .launching interpreter gone rfl rfl
  | deactivates _ => cases waits

/-- A command that goes on after its first turn. -/
theorem begin_goesOn {settings : Settings} {command : Command}
    (waits : (c.begin settings s command).progress = .waiting stage) :
    GoesOn c (c.begin settings s command) stage := by
  refine (outcome_begin c settings s command ?_).goesOn waits
  rintro session rfl
  by_cases held : c.server = some session
  · rw [begin_exited_held settings s held] at waits
    cases waits
  · rw [begin_exited_stale settings s held] at waits
    cases waits

/-- An operation that goes on after an answer does so from a controller with the same preference. -/
theorem resume_goesOn {a : stage.Answer}
    (waits : (c.resume s stage a).progress = .waiting stage')
    (gone : ∀ session next, stage = .stopping session next → c.server = none) :
    ∃ m : Controller, m.preferred = c.preferred ∧ GoesOn m (c.resume s stage a) stage' := by
  cases stage with
  | verifying candidate switching =>
      exact ⟨c, rfl, (outcome_resume_verifying c s candidate switching a).goesOn waits⟩
  | stopping session next =>
      have gone : (c.enter .stopped).1.server = none := gone session next rfl
      have waits : ((c.enter .stopped).1.afterStop s next).progress = .waiting stage' := waits
      -- what is published and told before the turn announces nothing
      refine ⟨(c.enter .stopped).1, rfl, ?_⟩
      cases (outcome_afterStop _ s next gone).goesOn waits with
      | quietly quiet preferred_eq announced_eq gone =>
          exact .quietly quiet preferred_eq announced_eq gone
      | launching interpreter gone state_eq announced_eq =>
          exact .launching interpreter gone state_eq announced_eq
  | launching session interpreter =>
      match a with
      | .ok () => cases waits
      | .error _ => cases waits
  | opening session path text => cases waits

end Controller

/-! ## The performance up to the launch -/

namespace Performance

open Controller

variable {settings : Settings} {n : Controller} {command : Command} {xs : List Exchange} {t : Turn}
  {stage : Stage} {session : Id} {interpreter : String} {causes : List String}

/-- Wherever an operation waits, it has come there from a controller that prefers what was
preferred when the operation began. -/
theorem goesOn (performed : Performance settings n command xs t)
    (waits : t.progress = .waiting stage) :
    ∃ m : Controller, m.preferred = n.preferred ∧ GoesOn m t stage := by
  induction performed generalizing stage with
  -- by induction on the answers: until the launch is asked for, the preference stays as it was
  | begin s => exact ⟨n, rfl, begin_goesOn waits⟩
  | @resume xs t stage' past waits' s a ih =>
      obtain ⟨m, same, before⟩ := ih waits'
      cases before with
      | quietly _ preferred_eq announced_eq gone =>
          obtain ⟨m', same', now⟩ := resume_goesOn waits gone
          refine ⟨m', same'.trans (preferred_eq.trans same), ?_⟩
          have all : announced (((t.state.resume s stage' a).after t.effects)).effects
              = announced (t.state.resume s stage' a).effects := by
            rw [Turn.effects_after, announced_append, announced_eq, List.nil_append]
          cases now with
          | quietly quiet preferred_eq announced_eq gone =>
              exact .quietly quiet preferred_eq (all.trans announced_eq) gone
          | launching interpreter gone state_eq announced_eq =>
              exact .launching interpreter gone state_eq (all.trans announced_eq)
      | launching interpreter _ _ _ =>
          -- a launch is the last thing that an operation waits for
          match a with
          | .ok () => cases waits
          | .error _ => cases waits

end Performance

/-! ## Failure -/

open Controller

theorem Controller.prefers_congr {m n : Controller} (same : m.preferred = n.preferred)
    (interpreter : String) : m.prefers interpreter = n.prefers interpreter := by
  rw [prefers, prefers, same]

/-- **A failed launch stays bound.** Whatever state the controller is in when an operation gets it,
if a launch fails then

* the operation is over with the causes of the failure, and no server is held;
* the interpreter of the launch is the bound and the preferred one, and is what the status shows;
* the host was told so, unless it was preferred before;
* the next restart asks for a verdict on this interpreter. -/
theorem failed_launch_stays_bound {settings : Settings} {n : Controller} {command : Command}
    {xs : List Exchange} {t : Turn} {session : Id} {interpreter : String} {causes : List String}
    (performed : Performance settings n command xs t)
    (answered : ⟨.launching session interpreter, .error causes⟩ ∈ xs) :
    t.progress = .finished (.failed (.launch causes)) ∧ t.state.server = none ∧
      t.state.bound = some interpreter ∧ t.state.preferred = some interpreter ∧
      t.state.published = ⟨.stopped, some interpreter⟩ ∧
      announced t.effects = (if n.prefers interpreter then [] else [interpreter]) ∧
      ∀ s, t.state.begin settings s .restart = t.state.wait (.verifying interpreter false) := by
  obtain ⟨past, u, s, rfl, before, waits, rfl⟩ := performed.last_answer answered fun _ _ => rfl
  obtain ⟨m, same, now⟩ := before.goesOn waits
  rw [resume_launching_error]
  cases now with
  | quietly quiet _ _ _ => cases quiet
  | launching _ gone state_eq announced_eq =>
      have bound : u.state.bound = some interpreter := by
        rw [state_eq]
        rfl
      have preferred : u.state.preferred = some interpreter := by
        rw [state_eq]
        rfl
      have held : u.state.server = none := by
        rw [state_eq]
        exact gone
      have told : announced u.effects = if n.prefers interpreter then [] else [interpreter] := by
        rw [announced_eq, announced_launch, prefers_congr same]
      refine ⟨rfl, held, bound, preferred, by rw [← bound]; rfl, ?_, ?_⟩
      · show announced (u.effects ++ _) = _
        rw [announced_append, told]
        exact List.append_nil _
      · intro s
        rw [Controller.begin, stop]
        simp only [Turn.after, held, afterStop, start, preferred]
        rfl

/-! ## A launch that fails while a server is running -/

open Crowd

/-- A controller that holds the first server of the simple host. -/
def simpleRunning : Controller :=
  ⟨.running, some "/venv/bin/python", some "/venv/bin/python", some ⟨1⟩, ⟨2⟩,
    ⟨.running, some "/venv/bin/python"⟩⟩

theorem reachable_simpleRunning : Reachable {} simpleRunning := by
  have idle : Chronicle {} (.initial {} simpleHost) [] (.initial {} simpleHost) := .nil
  have started := idle
    |>.snoc (.queue (o := .start) (s := simpleHost) rfl 0)
    |>.snoc (@Move.begin _ _ 0 .start [] [] rfl rfl simpleHost)
    |>.snoc (@Move.answer _ _ 0 (.verifying "/venv/bin/python" false) rfl simpleHost
      (Verdict.compatible []))
    |>.snoc (@Move.answer _ _ 0 (.launching ⟨1⟩ "/venv/bin/python") rfl simpleHost (Except.ok ()))
  exact ⟨simpleHost, _, _, started, rfl, rfl⟩

/-- The answers to a user who selects another interpreter, on which no server can be launched. -/
def failingSwitch : List Exchange :=
  [⟨.verifying "/opt/python" true, Verdict.compatible []⟩,
    ⟨.stopping ⟨1⟩ (.launch "/opt/python"), ()⟩,
    ⟨.launching ⟨2⟩ "/opt/python", Except.error ["spawn refused"]⟩]

theorem performance_failingSwitch :
    ∃ t, Performance {} simpleRunning (.switch "/opt/python" true) failingSwitch t ∧
      t.state.bound = some "/opt/python" := by
  have asked : Performance {} simpleRunning (.switch "/opt/python" true) [] _ :=
    .begin simpleHost
  have verified := @Performance.resume _ _ _ _ _ (.verifying "/opt/python" true) asked
    rfl simpleHost (Verdict.compatible [])
  have stopped := @Performance.resume _ _ _ _ _ (.stopping ⟨1⟩ (.launch "/opt/python")) verified rfl
    simpleHost ()
  exact ⟨_, @Performance.resume _ _ _ _ _ (.launching ⟨2⟩ "/opt/python") stopped rfl simpleHost
    (Except.error ["spawn refused"]), rfl⟩

/-- After the failed launch the host has been told of the other interpreter. -/
theorem failed_launch_stays_bound_switch :
    ∃ t, Performance {} simpleRunning (.switch "/opt/python" true) failingSwitch t ∧
      t.state.preferred = some "/opt/python" ∧ announced t.effects = ["/opt/python"] := by
  obtain ⟨t, performed, _⟩ := performance_failingSwitch
  obtain ⟨_, _, _, preferred, _, told, _⟩ := failed_launch_stays_bound performed
    (List.mem_cons_of_mem _ (List.mem_cons_of_mem _ List.mem_cons_self))
  exact ⟨t, performed, preferred, told⟩

/-- **A failed launch does not restore what was bound before it**, nor is it kept from the host. -/
theorem not_failed_launch_restores :
    ¬ ∀ (settings : Settings) (n : Controller) (command : Command) (xs : List Exchange) (t : Turn)
        (session : Id) (interpreter : String) (causes : List String),
      Reachable settings n → Performance settings n command xs t →
      ⟨.launching session interpreter, .error causes⟩ ∈ xs →
      t.state.bound = n.bound ∧ t.state.preferred = n.preferred ∧ announced t.effects = [] := by
  intro restores
  obtain ⟨t, performed, bound⟩ := performance_failingSwitch
  obtain ⟨same, _⟩ := restores _ _ _ _ _ _ _ _ reachable_simpleRunning performed
    (List.mem_cons_of_mem _ (List.mem_cons_of_mem _ List.mem_cons_self))
  rw [bound] at same
  exact absurd (Option.some.inj same) (by decide)

end Gatekeeper.Session
