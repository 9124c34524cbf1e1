import Gatekeeper.Frame
import Gatekeeper.Session.Status

set_option autoImplicit false

/-!
# Events of a running server

What a server lets the host know: messages for the user, messages for the log, and that it stopped.
-/

namespace Gatekeeper.Server

/-- The kinds of messages. -/
inductive MessageKind
  | error
  | warning
  | info
  | log
  deriving DecidableEq, Repr

/-- The name of a kind. -/
def MessageKind.label : MessageKind → String
  | .error => "error"
  | .warning => "warning"
  | .info => "info"
  | .log => "log"

/-- The kind with the given number. -/
def MessageKind.ofNat? : Nat → Option MessageKind
  | 1 => some .error
  | 2 => some .warning
  | 3 => some .info
  | 4 => some .log
  | _ => none

/-- Why a server is taken for stopped. -/
inductive StopReason
  /-- Its output ended between two frames. -/
  | exited
  /-- Its output could not be read on. -/
  | failed (fault : Frame.Fault)
  deriving DecidableEq, Repr

/-- The wording of a reason. -/
def StopReason.message : StopReason → String
  | .exited => "exited"
  | .failed fault => "failed: " ++ fault.message

/-- An event of the server of a session. -/
inductive Event
  /-- A message for the user. -/
  | «show» (session : Session.Id) (kind : MessageKind) (message : String)
  /-- A message for the log. -/
  | log (session : Session.Id) (kind : MessageKind) (message : String)
  | stopped (session : Session.Id) (reason : StopReason)
  deriving DecidableEq, Repr

/-- The session that an event belongs to. -/
def Event.session : Event → Session.Id
  | «show» session _ _ => session
  | log session _ _ => session
  | stopped session _ => session

end Gatekeeper.Server
