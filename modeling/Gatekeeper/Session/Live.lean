import Gatekeeper.Discovery
import Gatekeeper.Server.Fleet
import Gatekeeper.Session.Crowd
import Gatekeeper.Session.Mailbox

set_option autoImplicit false

/-!
# A controller on a machine

The controller with its real parts: candidates are probed on the machine, servers are launched on
it, and the host is what the environment says.
-/

namespace Gatekeeper.Session

open Server

/-- What a controller on a machine works with. -/
structure Equipment where
  host : Discovery.Host
  spec : LaunchSpec
  requirements : List Requirement
  /-- How long a probe may take, in milliseconds. -/
  timeout : Nat := Probe.defaultTimeout * 1000
  /-- The number of the client's process. -/
  process : Nat := 0

/-- The parts of a controller on a machine. -/
structure Live where
  equipment : Equipment
  fleet : Fleet
  mailbox : Mailbox := {}
  /-- The statuses that were published, latest first. -/
  published : List Status := []

namespace Live

/-- What the controller sees. -/
def surroundings (l : Live) : Surroundings where
  available := l.equipment.host.available
  active := l.equipment.host.active? l.fleet.world.disk l.fleet.world.cwd
  resolve := Discovery.resolve l.fleet.world.disk l.fleet.world.cwd
  handles := l.equipment.spec.handles

/-- The outcome of a launch as the controller is told. -/
def outcome (r : Except Failure Unit) : Except (List String) Unit :=
  match r with
  | .ok () => .ok ()
  | .error f => .error f.causes

/-- Answers the controller. -/
def answer (l : Live) (stage : Stage) : stage.Answer × Live :=
  match stage with
  | .verifying candidate _ =>
    let (v, fleet) := l.fleet.verify candidate l.equipment.timeout l.equipment.requirements
    (v, { l with fleet })
  | .stopping session _ => ((), { l with fleet := l.fleet.shutdown session })
  | .launching session interpreter =>
    let (r, fleet) := l.fleet.launch l.equipment.spec l.equipment.process session interpreter
    (outcome r, { l with fleet })
  | .opening session path text =>
    let (r, fleet) := l.fleet.openDocument session path text
    (match r with
      | .ok () => true
      | .error _ => false, { l with fleet })

/-- The parts of a controller on a machine. -/
def parts : Parts Live where
  surroundings := surroundings
  note l
    | .publish s => { l with published := s :: l.published }
    | .emit e => { l with mailbox := l.mailbox.post e }
  answer l _ stage := l.answer stage

/-- Takes the events of the controller. -/
def takeEvents (l : Live) : List Event × Live :=
  let (events, mailbox) := l.mailbox.drain
  (events, { l with mailbox })

end Live

end Gatekeeper.Session
