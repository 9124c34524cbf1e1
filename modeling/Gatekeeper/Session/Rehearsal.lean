import Gatekeeper.Path
import Gatekeeper.Server.LaunchSpec
import Gatekeeper.Session.Crowd
import Gatekeeper.Session.Mailbox

set_option autoImplicit false

/-!
# Rehearsals

A controller whose parts answer as was fixed in advance. What it asks of them is recorded, each
request with the status that was published at that moment.
-/

namespace Gatekeeper.Session

/-- The answers of the parts. -/
structure Script where
  surroundings : Surroundings
  /-- The verdicts by path. Nothing is found at any other path. -/
  verdicts : List (String × Verdict) := []
  /-- The causes for which launches fail, by session, the first session first. A launch without a
  cause succeeds. -/
  failures : List (List String) := []
  /-- Whether the server refuses every document. -/
  refusesDocuments : Bool := false

/-- A request that was recorded. -/
structure Call where
  stage : Stage
  /-- What was published when it was made. -/
  status : Status
  deriving Repr

/-- The state of a rehearsal. -/
structure Stand where
  script : Script
  /-- The requests, latest first. -/
  calls : List Call := []
  mailbox : Mailbox := {}
  /-- Whether a status was published. -/
  published : Bool := false

namespace Script

/-- The verdict on a candidate. -/
def verdict (s : Script) (path : String) : Verdict :=
  match s.verdicts.find? fun v => Path.same v.1 path with
  | some (_, v) => v
  | none => .notFound path

/-- The outcome of a launch. -/
def launch (s : Script) (session : Id) : Except (List String) Unit :=
  match s.failures[session.val - 1]? with
  | some [] => .ok ()
  | some causes => .error causes
  | none => .ok ()

/-- The answer to a request. -/
def answer (s : Script) : (stage : Stage) → stage.Answer
  | .verifying candidate _ => s.verdict candidate
  | .stopping _ _ => ()
  | .launching session _ => s.launch session
  | .opening _ _ _ => !s.refusesDocuments

end Script

namespace Stand

/-- The parts of a rehearsal. -/
def parts : Parts Stand where
  surroundings s := s.script.surroundings
  note s
    | .publish _ => { s with published := true }
    | .emit e => { s with mailbox := s.mailbox.post e }
  answer s status stage := (s.script.answer stage, { s with calls := ⟨stage, status⟩ :: s.calls })

/-- The stand before the next step: nothing recorded. -/
def fresh (s : Stand) : Stand := { s with calls := [], published := false }

end Stand

/-- What is done to a controller in a step. -/
inductive Step
  | operation (o : Operation)
  /-- Several operations that begin together. -/
  | together (os : List Operation)
  /-- The host stops to listen. -/
  | closeEvents

namespace Running

/-- Takes a step of a rehearsal. -/
def rehearse (settings : Settings) (r : Running Stand) : Step → Running Stand × List Result
  | .operation o =>
    let (r, result) := r.run Stand.parts settings o
    (r, [result])
  | .together os => r.runTogether Stand.parts settings os
  | .closeEvents => ({ r with parts := { r.parts with mailbox := r.parts.mailbox.close } }, [.done])

/-- The events that wait for the host, taken. -/
def takeEvents (r : Running Stand) : List Event × Running Stand :=
  let (events, mailbox) := r.parts.mailbox.drain
  (events, { r with parts := { r.parts with mailbox } })

end Running

end Gatekeeper.Session
