import Gatekeeper.Session.Run

set_option autoImplicit false

/-!
# Operations that overlap

Operations may begin while another one is at a stage. They wait in line and get the controller in
the order of their arrival; what an operation does before it needs the controller it does on
arrival. `Crowd.Step` says what can happen next: another operation arrives, or the one that has the
controller gets an answer.
-/

namespace Gatekeeper.Session

/-- A controller with the operations that have begun, each by its number. -/
structure Crowd where
  controller : Controller
  /-- The operation that has the controller, and the stage it is at. -/
  holder : Option (Nat × Stage) := none
  /-- The commands that wait for the controller, in order. -/
  line : List (Nat × Command) := []
  /-- The results of the operations that have ended, the latest first. -/
  results : List (Nat × Result) := []

namespace Crowd

/-- Takes over the state after a turn of the operation with the given number. -/
def turned (c : Crowd) (k : Nat) (t : Turn) : Crowd :=
  match t.progress with
  | .waiting stage => { c with controller := t.state, holder := some (k, stage) }
  | .finished result =>
    { c with controller := t.state, holder := none, results := (k, result) :: c.results }

/-- Lets the commands in line have the controller, one after another, until one comes to a stage. -/
def serve (settings : Settings) (s : Surroundings) (c : Crowd) :
    List (Nat × Command) → Crowd × List Effect
  | [] => ({ c with line := [] }, [])
  | (k, command) :: line =>
    if c.holder.isSome then ({ c with line := (k, command) :: line }, [])
    else
      let t := c.controller.begin settings s command
      let (c, effects) := serve settings s (c.turned k t) line
      (c, t.effects ++ effects)

/-- An operation arrives. -/
def arrive (settings : Settings) (s : Surroundings) (c : Crowd) (k : Nat) (o : Operation) :
    Crowd × List Effect :=
  match o.accept s with
  | (effects, .inl result) => ({ c with results := (k, result) :: c.results }, effects)
  | (effects, .inr command) =>
    let (c, more) := c.serve settings s (c.line ++ [(k, command)])
    (c, effects ++ more)

/-- The operation with the given number, which has the controller, gets an answer. -/
def resume (settings : Settings) (s : Surroundings) (c : Crowd) (k : Nat) (stage : Stage)
    (a : stage.Answer) : Crowd × List Effect :=
  let t := c.controller.resume s stage a
  let (c, effects) := (c.turned k t).serve settings s c.line
  (c, t.effects ++ effects)

/-- What can happen next, and the effects it has. -/
inductive Step (settings : Settings) : Crowd → Crowd → List Effect → Prop
  | arrive (c : Crowd) (s : Surroundings) (k : Nat) (o : Operation) :
    Step settings c (c.arrive settings s k o).1 (c.arrive settings s k o).2
  | answer (c : Crowd) (s : Surroundings) (k : Nat) (stage : Stage) (a : stage.Answer)
      (holds : c.holder = some (k, stage)) :
    Step settings c (c.resume settings s k stage a).1 (c.resume settings s k stage a).2

end Crowd

namespace Running

variable {σ : Type}

/-- Lets several operations arrive, numbered from `k` on. -/
def arriveAll (p : Parts σ) (settings : Settings) (c : Crowd) (world : σ) (k : Nat) :
    List Operation → Crowd × σ
  | [] => (c, world)
  | o :: os =>
    let (c, effects) := c.arrive settings (p.surroundings world) k o
    arriveAll p settings c (effects.foldl p.note world) (k + 1) os

/-- Runs the commands in line, one after another. -/
def performAll (p : Parts σ) (settings : Settings) (r : Running σ)
    (results : List (Nat × Result)) : List (Nat × Command) → Running σ × List (Nat × Result)
  | [] => (r, results)
  | (k, command) :: line =>
    let (r, result) := r.perform p settings command
    performAll p settings r ((k, result) :: results) line

/-- Runs several operations that begin together: all arrive before the first answer. The results are
in the order of the operations. -/
def runTogether (p : Parts σ) (settings : Settings) (r : Running σ) (os : List Operation) :
    Running σ × List Result :=
  let (c, world) := arriveAll p settings { controller := r.controller } r.parts 0 os
  let r : Running σ := ⟨c.controller, world⟩
  let (r, results) :=
    match c.holder with
    | none => (r, c.results)
    | some (k, stage) =>
      let (r, result) := drive p r (.waiting stage)
      (r, (k, result) :: c.results)
  let (r, results) := performAll p settings r results c.line
  (r, (List.range os.length).filterMap fun k => results.lookup k)

end Running

end Gatekeeper.Session
