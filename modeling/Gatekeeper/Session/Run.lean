import Gatekeeper.Session.Controller

set_option autoImplicit false

/-!
# Running operations

The controller together with parts that answer it. The parts have a state of their own; what they do
in answer to the controller changes it. An operation is run from its admission to its result.
-/

namespace Gatekeeper.Session

/-- The parts of a controller, with a state of type `σ`. -/
structure Parts (σ : Type) where
  /-- What the controller sees. -/
  surroundings : σ → Surroundings
  /-- Takes note of an effect. -/
  note : σ → Effect → σ
  /-- Answers the controller, given the status that was published last. -/
  answer : σ → Status → (stage : Stage) → stage.Answer × σ

/-- A controller with the state of its parts. -/
structure Running (σ : Type) where
  controller : Controller
  parts : σ

namespace Running

variable {σ : Type}

/-- Takes note of the effects of a turn. -/
def settle (p : Parts σ) (world : σ) (t : Turn) : Running σ :=
  ⟨t.state, t.effects.foldl p.note world⟩

/-- Runs an operation on from the end of a turn. -/
def drive (p : Parts σ) (r : Running σ) (progress : Progress) : Running σ × Result :=
  match progress with
  | .finished result => (r, result)
  | .waiting stage =>
    let (answer, world) := p.answer r.parts r.controller.published stage
    let turn := r.controller.resume (p.surroundings world) stage answer
    drive p (settle p world turn) turn.progress
  termination_by progress.rank
  decreasing_by exact Controller.rank_resume_lt _ _ _ _

/-- Runs a command. -/
def perform (p : Parts σ) (settings : Settings) (r : Running σ) (c : Command) :
    Running σ × Result :=
  let turn := r.controller.begin settings (p.surroundings r.parts) c
  drive p (settle p r.parts turn) turn.progress

/-- Runs an operation. -/
def run (p : Parts σ) (settings : Settings) (r : Running σ) (o : Operation) :
    Running σ × Result :=
  match o.accept (p.surroundings r.parts) with
  | (effects, .inl result) => ({ r with parts := effects.foldl p.note r.parts }, result)
  | (effects, .inr command) =>
    perform p settings { r with parts := effects.foldl p.note r.parts } command

end Running

end Gatekeeper.Session
