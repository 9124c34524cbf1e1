import Gatekeeper.Path
import Gatekeeper.Session.Event

set_option autoImplicit false

/-!
# The session controller

The controller owns the running server. It is a state machine: an operation begins with a turn, and
each turn ends either with the operation's result or at a stage, where the controller waits for an
answer of one of its parts: the verifier, the launcher, or the server. `begin` and `resume` compute
the turns. While an operation is at a stage, no other one begins.
-/

namespace Gatekeeper.Session

/-- What is configured. -/
structure Settings where
  /-- The interpreter to start with. -/
  defaultInterpreter : Option String := none
  /-- Whether the host may replace a configured default. -/
  followChanges : Bool := true
  deriving DecidableEq, Repr

/-- What the controller sees of the world around it. -/
structure Surroundings where
  /-- Whether the host can tell of interpreters. -/
  available : Bool
  /-- The interpreter that is active on the host. -/
  active : Option String
  /-- The interpreter that a selection stands for. -/
  resolve : String → String
  /-- Whether a document is shown to the server. -/
  handles : String → Bool

/-- The state of the controller. -/
structure Controller where
  phase : Phase := .stopped
  /-- The interpreter that was launched last. -/
  bound : Option String := none
  /-- The interpreter to start with. -/
  preferred : Option String := none
  /-- The session of the server that is held. -/
  server : Option Id := none
  /-- The session of the next launch. -/
  next : Id := ⟨1⟩
  /-- The status that was published last. -/
  published : Status := {}
  deriving DecidableEq, Repr

/-- What a host can ask of the controller. -/
inductive Operation
  | activate
  | start
  | stop
  | restart
  /-- The active interpreter of the host changed. -/
  | changed (selection : String)
  /-- The user selected an interpreter. -/
  | select (selection : String)
  /-- The server of a session went away. -/
  | exited (session : Id)
  | openDocument (path text : String)
  | deactivate
  deriving DecidableEq, Repr

/-- What remains of an operation once it has the controller for itself. -/
inductive Command
  | start
  | stop
  | restart
  /-- Use another interpreter; `asked` says whether the user asked for it. -/
  | switch (candidate : String) (asked : Bool)
  | exited (session : Id)
  | openDocument (path text : String)
  | deactivate
  deriving DecidableEq, Repr

/-- What an operation does while the controller's parts are not asked. -/
inductive Effect
  | publish (s : Status)
  | emit (e : Event)
  deriving Repr

/-- What is to be done after a server was shut down. -/
inductive AfterStop
  | finish
  | start
  | launch (interpreter : String)
  | deactivate
  deriving DecidableEq, Repr

/-- Where an operation waits for a part of the controller. -/
inductive Stage
  /-- A candidate is verified; `switching` says whether another interpreter may be in effect. -/
  | verifying (candidate : String) (switching : Bool)
  | stopping (session : Id) (next : AfterStop)
  | launching (session : Id) (interpreter : String)
  | opening (session : Id) (path text : String)
  deriving DecidableEq, Repr

/-- What ends the waiting. -/
def Stage.Answer : Stage → Type
  | verifying _ _ => Verdict
  | stopping _ _ => Unit
  | launching _ _ => Except (List String) Unit
  | opening _ _ _ => Bool

/-- How a turn ends. -/
inductive Progress
  | waiting (stage : Stage)
  | finished (result : Result)
  deriving Repr

/-- A turn: the state after it, its effects in order, and how it ends. -/
structure Turn where
  state : Controller
  effects : List Effect := []
  progress : Progress
  deriving Repr

namespace Turn

/-- The turn with effects before its own. -/
def after (effects : List Effect) (t : Turn) : Turn := { t with effects := effects ++ t.effects }

end Turn

/-- The notice with the given message. -/
def notice (m : Message) (detail : Option String) : Effect := .emit (.notice m detail)

/-- What comes of an operation before it needs the controller: its result, or a command. -/
def Operation.accept (s : Surroundings) : Operation → List Effect × (Result ⊕ Command)
  | activate =>
    if s.available then ([], .inr .start)
    else ([notice .hostUnavailable none], .inl (.failed .hostUnavailable))
  | start => ([], .inr .start)
  | stop => ([], .inr .stop)
  | restart => ([], .inr .restart)
  | changed selection => ([], .inr (.switch (s.resolve selection) false))
  | select selection => ([], .inr (.switch (s.resolve selection) true))
  | exited session => ([], .inr (.exited session))
  | openDocument path text =>
    if s.handles path then ([], .inr (.openDocument path text)) else ([], .inl (.value false))
  | deactivate => ([], .inr .deactivate)

/-- The controller before its first operation. A configured default that names an environment stands
for the interpreter in it. -/
def Controller.initial (settings : Settings) (s : Surroundings) : Controller :=
  { preferred := settings.defaultInterpreter.map s.resolve }

namespace Controller

/-- What is published in this state. -/
def status (c : Controller) : Status := ⟨c.phase, c.bound⟩

/-- Publishes the status. -/
def publish (c : Controller) : Controller × Effect :=
  ({ c with published := c.status }, .publish c.status)

/-- Enters a phase and publishes it. -/
def enter (c : Controller) (p : Phase) : Controller × Effect := publish { c with phase := p }

/-- The turn that ends with a result. -/
def finish (c : Controller) (result : Result) : Turn := { state := c, progress := .finished result }

/-- The turn that ends at a stage. -/
def wait (c : Controller) (stage : Stage) : Turn := { state := c, progress := .waiting stage }

/-- Chooses a candidate and has it verified. -/
def start (c : Controller) (s : Surroundings) : Turn :=
  match c.preferred.or s.active with
  | some candidate => c.wait (.verifying candidate false)
  | none => (c.finish (.failed .noInterpreter)).after [notice .selectInterpreter none]

/-- Whether an interpreter is the preferred one. -/
def prefers (c : Controller) (interpreter : String) : Bool :=
  match c.preferred with
  | some p => Path.same p interpreter
  | none => false

/-- Binds a verified interpreter and has a server launched on it. -/
def launch (c : Controller) (interpreter : String) : Turn :=
  let told := if c.prefers interpreter then [] else [Effect.emit (.bound interpreter)]
  let (c', published) :=
    { c with bound := some interpreter, preferred := some interpreter, next := c.next.next }.enter
      .starting
  (c'.wait (.launching c.next interpreter)).after (told ++ [published])

/-- Goes on after a server was shut down, or where there was none. -/
def afterStop (c : Controller) (s : Surroundings) : AfterStop → Turn
  | .finish => c.finish .done
  | .start => c.start s
  | .launch interpreter => c.launch interpreter
  | .deactivate =>
    let (c, published) := c.enter .stopped
    (c.finish .done).after [published]

/-- Gives up the server that is held, if there is one, and has it shut down. -/
def stop (c : Controller) (s : Surroundings) (next : AfterStop) : Turn :=
  match c.server with
  | some session => { c with server := none }.wait (.stopping session next)
  | none => c.afterStop s next

/-- Whether changes that the host reports are ignored. -/
def Pinned (settings : Settings) : Bool :=
  !settings.followChanges && settings.defaultInterpreter.isSome

/-- The first turn of a command. -/
def begin (c : Controller) (settings : Settings) (s : Surroundings) : Command → Turn
  | .start => c.start s
  | .stop => c.stop s .finish
  | .restart => c.stop s .start
  | .switch candidate asked =>
    if !asked && Pinned settings then (c.finish .done).after [.emit (.changeIgnored candidate)]
    else c.wait (.verifying candidate true)
  | .exited session =>
    if c.server = some session then
      let (c, published) := { c with server := none }.enter .stopped
      (c.finish (.value true)).after [published, notice .stopped (some "server exited")]
    else c.finish (.value false)
  | .openDocument path text =>
    match c.server with
    | some session => c.wait (.opening session path text)
    | none => c.finish (.value false)
  | .deactivate => c.stop s .deactivate

/-- The turn after an answer. -/
def resume (c : Controller) (s : Surroundings) : (stage : Stage) → stage.Answer → Turn
  | .verifying candidate switching, (verdict : Verdict) =>
    if verdict.isCompatible then c.stop s (.launch candidate)
    else
      (c.finish (.failed (.incompatible verdict))).after
        (.emit (.incompatible candidate verdict) ::
          if switching then [.emit (.keptPrevious candidate c.bound)] else [])
  | .stopping _ next, _ =>
    let (c, published) := c.enter .stopped
    (c.afterStop s next).after [published, notice .stopped none]
  | .launching session _, (answer : Except (List String) Unit) =>
    match answer with
    | .ok () =>
      let (c, published) := { c with server := some session }.enter .running
      (c.finish .done).after [published, notice .started none]
    | .error causes =>
      let (c, published) := c.enter .stopped
      (c.finish (.failed (.launch causes))).after [published]
  | .opening _ _ _, (sent : Bool) => c.finish (.value sent)

end Controller

/-- How many more stages an operation can come to after this one, and one. -/
def Stage.rank : Stage → Nat
  | stopping _ .start => 4
  | verifying _ _ => 3
  | stopping _ (.launch _) => 2
  | _ => 1

/-- The same after a turn. -/
def Progress.rank : Progress → Nat
  | waiting stage => stage.rank
  | finished _ => 0

/-- Every answer brings an operation nearer to its end. -/
theorem Controller.rank_resume_lt (c : Controller) (s : Surroundings) (stage : Stage)
    (a : stage.Answer) : (c.resume s stage a).progress.rank < stage.rank := by
  cases stage with
  | verifying candidate switching =>
    simp only [Controller.resume]
    split
    · simp only [Controller.stop]
      split
      · simp [Controller.wait, Progress.rank, Stage.rank]
      · simp [Controller.afterStop, Controller.launch, Controller.wait, Turn.after, Progress.rank,
          Stage.rank]
    · simp [Controller.finish, Turn.after, Progress.rank, Stage.rank]
  | stopping session next =>
    cases next with
    | start =>
      simp only [Controller.resume, Controller.afterStop, Controller.start]
      split <;> simp [Controller.wait, Controller.finish, Turn.after, Progress.rank, Stage.rank]
    | _ =>
      simp [Controller.resume, Controller.afterStop, Controller.launch, Controller.wait,
        Controller.finish, Turn.after, Progress.rank, Stage.rank]
  | launching session interpreter =>
    simp only [Controller.resume]
    split <;> simp [Controller.finish, Turn.after, Progress.rank, Stage.rank]
  | opening session path text =>
    simp [Controller.resume, Controller.finish, Progress.rank, Stage.rank]

end Gatekeeper.Session
