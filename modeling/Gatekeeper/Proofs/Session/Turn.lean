import Gatekeeper.Session.Controller

set_option autoImplicit false

/-!
# What a turn comes to

`Controller.begin` and `Controller.resume` share four parts: `start`, `stop`, `afterStop` and
`launch`. Seen from the controller on which such a part is entered, a turn comes to one of six ends
(`Outcome`). The two functions are taken apart here and nowhere else: what is shown of the
controller later is shown of the six ends, of the report that a server has gone
(`begin_exited_held`, `begin_exited_stale`), and of the three answers that change the server
(`resume_stopping`, `resume_launching_ok`, `resume_launching_error`). Which of the ends it is
depends on the command or on the answer: `opens_of_begin` and `leads_of_resume` say to which stages
these can lead.
-/

namespace Gatekeeper.Session

/-! ## Views of a turn -/

/-- The stage at which an operation waits, if it does. -/
def Progress.stage? : Progress → Option Stage
  | waiting stage => some stage
  | finished _ => none

@[simp] theorem Turn.effects_after (effects : List Effect) (t : Turn) :
    (t.after effects).effects = effects ++ t.effects := rfl

/-- The launch that is asked for at a stage: the session and the interpreter. -/
def askedLaunch : Option Stage → List (Id × String)
  | some (.launching session interpreter) => [(session, interpreter)]
  | _ => []

/-- The server that exists while an operation is at a stage: the one that is held, or the one that
was given up and is not down yet. -/
def Controller.custody (c : Controller) : Option Stage → Option Id
  | some (.stopping session _) => some session
  | _ => c.server

/-- What a subscriber to the status sees after some effects, if it saw the given status before. -/
def seen (s : Status) (effects : List Effect) : Status :=
  effects.foldl (fun s e => match e with
    | .publish s' => s'
    | .emit _ => s) s

theorem seen_append (s : Status) (es fs : List Effect) :
    seen s (es ++ fs) = seen (seen s es) fs := List.foldl_append

/-- Events do not change what is seen. -/
theorem seen_emit (s : Status) (events : List Event) : seen s (events.map .emit) = s := by
  induction events with
  | nil => rfl
  | cons _ events ih => exact ih

namespace Controller

/-! ## The six ends -/

/-- A launch announces a new preference and shows that it has begun. -/
theorem launch_effects (c : Controller) (interpreter : String) :
    (c.launch interpreter).effects
      = (if c.prefers interpreter then [] else [.emit (.bound interpreter)])
        ++ [.publish ⟨.starting, some interpreter⟩] := List.append_nil _

/-- What a turn comes to from the controller on which one of its parts is entered. -/
inductive Outcome (c : Controller) : Turn → Prop
  /-- The operation is over; the host is told of it at most. -/
  | tells (events : List Event) (result : Result) :
      Outcome c ⟨c, events.map .emit, .finished result⟩
  | verifies (candidate : String) (switching : Bool) :
      Outcome c (c.wait (.verifying candidate switching))
  | opens {session : Id} (held : c.server = some session) (path text : String) :
      Outcome c (c.wait (.opening session path text))
  /-- The server is given up. -/
  | stops {session : Id} (held : c.server = some session) (next : AfterStop) :
      Outcome c ({ c with server := none }.wait (.stopping session next))
  | launches (gone : c.server = none) (interpreter : String) : Outcome c (c.launch interpreter)
  | deactivates (gone : c.server = none) :
      Outcome c ⟨(c.enter .stopped).1, [(c.enter .stopped).2], .finished .done⟩

theorem outcome_start (c : Controller) (s : Surroundings) : Outcome c (c.start s) := by
  rw [start]
  cases c.preferred.or s.active with
  | some candidate => exact .verifies candidate false
  | none => exact .tells [.notice .selectInterpreter none] _

theorem outcome_afterStop (c : Controller) (s : Surroundings) (next : AfterStop)
    (gone : c.server = none) : Outcome c (c.afterStop s next) := by
  cases next with
  | finish => exact .tells [] .done
  | start => exact outcome_start c s
  | launch interpreter => exact .launches gone interpreter
  | deactivate => exact .deactivates gone

theorem outcome_stop (c : Controller) (s : Surroundings) (next : AfterStop) :
    Outcome c (c.stop s next) := by
  rw [stop]
  cases held : c.server with
  | some session => exact .stops held next
  | none => exact outcome_afterStop c s next held

/-- A command that is not a report of a gone server comes to one of the six ends. -/
theorem outcome_begin (c : Controller) (settings : Settings) (s : Surroundings) (command : Command)
    (h : ∀ session, command ≠ .exited session) : Outcome c (c.begin settings s command) := by
  cases command with
  | start => exact outcome_start c s
  | stop => exact outcome_stop c s _
  | restart => exact outcome_stop c s _
  | switch candidate asked =>
      rw [begin]
      split
      · exact .tells [.changeIgnored candidate] _
      · exact .verifies candidate true
  | exited session => exact absurd rfl (h session)
  | openDocument path text =>
      rw [begin]
      cases held : c.server with
      | some session => exact .opens held path text
      | none => exact .tells [] _
  | deactivate => exact outcome_stop c s _

/-- A verdict comes to one of the six ends. -/
theorem outcome_resume_verifying (c : Controller) (s : Surroundings) (candidate : String)
    (switching : Bool) (verdict : Verdict) :
    Outcome c (c.resume s (.verifying candidate switching) verdict) := by
  rw [resume]
  split
  · exact outcome_stop c s _
  · cases switching with
    | true =>
        exact .tells [.incompatible candidate verdict, .keptPrevious candidate c.bound] _
    | false => exact .tells [.incompatible candidate verdict] _

/-! ## The turns that change the server -/

/-- The server that is held has gone. -/
theorem begin_exited_held {c : Controller} {session : Id} (settings : Settings) (s : Surroundings)
    (held : c.server = some session) :
    c.begin settings s (.exited session)
      = ⟨{ c with server := none, phase := .stopped, published := ⟨.stopped, c.bound⟩ },
          [.publish ⟨.stopped, c.bound⟩, notice .stopped (some "server exited")],
          .finished (.value true)⟩ := by
  rw [begin, if_pos held]
  rfl

/-- A report that is not about the server that is held. -/
theorem begin_exited_stale {c : Controller} {session : Id} (settings : Settings) (s : Surroundings)
    (stale : c.server ≠ some session) :
    c.begin settings s (.exited session) = ⟨c, [], .finished (.value false)⟩ := by
  rw [begin, if_neg stale]
  rfl

/-- The server is down: the turn goes on from a controller that is stopped. -/
theorem resume_stopping (c : Controller) (s : Surroundings) (session : Id) (next : AfterStop) :
    c.resume s (.stopping session next) ()
      = ((c.enter .stopped).1.afterStop s next).after
          [.publish ⟨.stopped, c.bound⟩, notice .stopped none] := rfl

/-- The server is up. -/
theorem resume_launching_ok (c : Controller) (s : Surroundings) (session : Id)
    (interpreter : String) :
    c.resume s (.launching session interpreter) (.ok ())
      = ⟨{ c with server := some session, phase := .running, published := ⟨.running, c.bound⟩ },
          [.publish ⟨.running, c.bound⟩, notice .started none], .finished .done⟩ := rfl

/-- The launch failed. -/
theorem resume_launching_error (c : Controller) (s : Surroundings) (session : Id)
    (interpreter : String) (causes : List String) :
    c.resume s (.launching session interpreter) (.error causes)
      = ⟨{ c with phase := .stopped, published := ⟨.stopped, c.bound⟩ },
          [.publish ⟨.stopped, c.bound⟩], .finished (.failed (.launch causes))⟩ := rfl

/-! ## What the six ends have in common -/

namespace Outcome

variable {c : Controller} {t : Turn}

/-- No server appears or disappears. -/
theorem custody_eq (o : Outcome c t) : t.state.custody t.progress.stage? = c.server := by
  cases o with
  | stops held next => exact held.symm
  | _ => rfl

/-- A turn that ends with a server has left the controller as it was. -/
theorem state_eq (o : Outcome c t) {session : Id} (held : t.state.server = some session) :
    t.state = c := by
  cases o with
  | stops _ next => cases held
  | launches gone interpreter => exact absurd (gone.symm.trans held) (by simp)
  | deactivates gone => exact absurd (gone.symm.trans held) (by simp)
  | _ => rfl

/-- A launch takes the next session, and nothing else does. -/
theorem asked_eq (o : Outcome c t) :
    (askedLaunch t.progress.stage? = [] ∧ t.state.next = c.next) ∨
      ∃ interpreter, askedLaunch t.progress.stage? = [(c.next, interpreter)] ∧
        t.state.next = c.next.next := by
  cases o with
  | launches _ interpreter => exact Or.inr ⟨interpreter, rfl, rfl⟩
  | _ => exact Or.inl ⟨rfl, rfl⟩

/-- The bound interpreter and the preferred one are changed, but not forgotten. -/
theorem isSome_of_isSome (o : Outcome c t) :
    (c.bound.isSome → t.state.bound.isSome) ∧ (c.preferred.isSome → t.state.preferred.isSome) := by
  cases o with
  | launches _ interpreter => exact ⟨fun _ => rfl, fun _ => rfl⟩
  | _ => exact ⟨id, id⟩

/-- What the controller has published is what is seen. -/
theorem published_eq (o : Outcome c t) : t.state.published = seen c.published t.effects := by
  cases o with
  | tells events result => exact (seen_emit c.published events).symm
  | launches _ interpreter =>
      rw [launch_effects, seen_append]
      rfl
  | _ => rfl

end Outcome

/-! ## Where a turn leads -/

variable {c : Controller} {s : Surroundings} {stage stage' : Stage} {next : AfterStop}

/-- The stage to which the first turn of a command leads. -/
inductive Opens (c : Controller) (settings : Settings) (s : Surroundings) : Command → Stage → Prop
  | start {candidate : String} (chosen : c.preferred.or s.active = some candidate) :
      Opens c settings s .start (.verifying candidate false)
  | stop {session : Id} (held : c.server = some session) :
      Opens c settings s .stop (.stopping session .finish)
  | restart {session : Id} (held : c.server = some session) :
      Opens c settings s .restart (.stopping session .start)
  /-- Without a server a restart is a start. -/
  | restartStopped {candidate : String} (gone : c.server = none)
      (chosen : c.preferred.or s.active = some candidate) :
      Opens c settings s .restart (.verifying candidate false)
  | switch (candidate : String) (asked : Bool) (free : (!asked && Pinned settings) = false) :
      Opens c settings s (.switch candidate asked) (.verifying candidate true)
  | opening {session : Id} (held : c.server = some session) (path text : String) :
      Opens c settings s (.openDocument path text) (.opening session path text)
  | deactivate {session : Id} (held : c.server = some session) :
      Opens c settings s .deactivate (.stopping session .deactivate)

/-- The stage to which the turn after an answer leads. -/
inductive Leads (c : Controller) (s : Surroundings) : (stage : Stage) → stage.Answer → Stage → Prop
  /-- The server that is held makes room for the one on the candidate. -/
  | replaces {candidate : String} {switching : Bool} {verdict : Verdict} {session : Id}
      (good : verdict.isCompatible = true) (held : c.server = some session) :
      Leads c s (.verifying candidate switching) verdict (.stopping session (.launch candidate))
  | launches {candidate : String} {switching : Bool} {verdict : Verdict}
      (good : verdict.isCompatible = true) (gone : c.server = none) :
      Leads c s (.verifying candidate switching) verdict (.launching c.next candidate)
  | looks {session : Id} {candidate : String}
      (chosen : c.preferred.or s.active = some candidate) :
      Leads c s (.stopping session .start) () (.verifying candidate false)
  | follows (session : Id) (candidate : String) :
      Leads c s (.stopping session (.launch candidate)) () (.launching c.next candidate)

/-- A start asks for a verdict or is over. -/
theorem start_waiting (waits : (c.start s).progress = .waiting stage) :
    ∃ candidate, c.preferred.or s.active = some candidate ∧ stage = .verifying candidate false := by
  unfold start at waits
  cases chosen : c.preferred.or s.active with
  | some candidate =>
      rw [chosen] at waits
      cases waits
      exact ⟨candidate, rfl, rfl⟩
  | none =>
      rw [chosen] at waits
      cases waits

/-- Where a stop waits: for the server it gave up, or at what comes after it. -/
theorem stop_waiting (waits : (c.stop s next).progress = .waiting stage) :
    (∃ session, c.server = some session ∧ stage = .stopping session next) ∨
      c.server = none ∧ (c.afterStop s next).progress = .waiting stage := by
  unfold stop at waits
  cases held : c.server with
  | some session =>
      rw [held] at waits
      cases waits
      exact Or.inl ⟨session, rfl, rfl⟩
  | none =>
      rw [held] at waits
      exact Or.inr ⟨rfl, waits⟩

/-- Only a verdict that is compatible is waited after. -/
theorem verifying_waiting {candidate : String} {switching : Bool} {verdict : Verdict}
    (waits : (c.resume s (.verifying candidate switching) verdict).progress = .waiting stage) :
    verdict.isCompatible = true ∧ (c.stop s (.launch candidate)).progress = .waiting stage := by
  rw [resume] at waits
  split at waits
  · rename_i good
    exact ⟨good, waits⟩
  · cases waits

/-- **The stages to which a command can lead.** -/
theorem opens_of_begin {settings : Settings} {command : Command}
    (waits : (c.begin settings s command).progress = .waiting stage) :
    Opens c settings s command stage := by
  cases command with
  | start =>
      obtain ⟨candidate, chosen, rfl⟩ := start_waiting waits
      exact .start chosen
  | stop =>
      rcases stop_waiting waits with ⟨session, held, rfl⟩ | ⟨_, ended⟩
      · exact .stop held
      · cases ended
  | restart =>
      rcases stop_waiting waits with ⟨session, held, rfl⟩ | ⟨gone, starts⟩
      · exact .restart held
      · obtain ⟨candidate, chosen, rfl⟩ := start_waiting starts
        exact .restartStopped gone chosen
  | switch candidate asked =>
      rw [begin] at waits
      split at waits
      · cases waits
      · rename_i free
        cases waits
        exact .switch candidate asked (Bool.eq_false_iff.mpr free)
  | exited session =>
      rw [begin] at waits
      split at waits
      · cases waits
      · cases waits
  | openDocument path text =>
      rw [begin] at waits
      split at waits
      · rename_i held
        cases waits
        exact .opening held path text
      · cases waits
  | deactivate =>
      rcases stop_waiting waits with ⟨session, held, rfl⟩ | ⟨_, ended⟩
      · exact .deactivate held
      · cases ended

/-- **The stages to which an answer can lead.** -/
theorem leads_of_resume {a : stage.Answer}
    (waits : (c.resume s stage a).progress = .waiting stage') : Leads c s stage a stage' := by
  cases stage with
  | verifying candidate switching =>
      obtain ⟨good, stops⟩ := verifying_waiting waits
      rcases stop_waiting stops with ⟨session, held, rfl⟩ | ⟨gone, launches⟩
      · exact .replaces good held
      · cases launches
        exact .launches good gone
  | stopping session next =>
      cases next with
      | finish => cases waits
      | start =>
          -- the shutdown changes neither the preference nor what the host says
          obtain ⟨candidate, chosen, rfl⟩ := start_waiting waits
          exact .looks chosen
      | launch candidate =>
          cases waits
          exact .follows session candidate
      | deactivate => cases waits
  | launching session interpreter =>
      match a with
      | .ok () => cases waits
      | .error _ => cases waits
  | opening session path text => cases waits

end Controller

/-! ## Operations and commands -/

/-- What an operation is once it is accepted. -/
def Operation.command (s : Surroundings) : Operation → Command
  | activate | start => .start
  | stop => .stop
  | restart => .restart
  | changed selection => .switch (s.resolve selection) false
  | select selection => .switch (s.resolve selection) true
  | exited session => .exited session
  | openDocument path text => .openDocument path text
  | deactivate => .deactivate

/-- Before it needs the controller, an operation tells at most that there is no host. -/
theorem Operation.told_by_accept (o : Operation) (s : Surroundings) :
    (o.accept s).1 = [] ∨ (o.accept s).1 = [notice .hostUnavailable none] := by
  cases o with
  | activate =>
      rw [accept]
      split
      · exact Or.inl rfl
      · exact Or.inr rfl
  | openDocument path text =>
      rw [accept]
      split
      · exact Or.inl rfl
      · exact Or.inl rfl
  | _ => exact Or.inl rfl

/-- Nobody is told that an operation is accepted. -/
theorem Operation.eq_of_accept {o : Operation} {s : Surroundings} {told : List Effect}
    {command : Command} (accepted : o.accept s = (told, .inr command)) :
    told = [] ∧ command = o.command s := by
  cases o with
  | activate =>
      rw [accept] at accepted
      split at accepted
      · cases accepted
        exact ⟨rfl, rfl⟩
      · cases accepted
  | openDocument path text =>
      rw [accept] at accepted
      split at accepted
      · cases accepted
        exact ⟨rfl, rfl⟩
      · cases accepted
  | _ =>
      cases accepted
      exact ⟨rfl, rfl⟩

end Gatekeeper.Session
