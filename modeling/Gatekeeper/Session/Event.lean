import Gatekeeper.Session.Status
import Gatekeeper.Verdict

set_option autoImplicit false

/-!
# What a session tells its host

The events that the host should show to the user or record, and the errors of operations.
-/

namespace Gatekeeper.Session

/-- Something that the host should show or record. -/
inductive Event
  | notice (message : Message) (detail : Option String)
  /-- A newly verified interpreter became the preferred one. -/
  | bound (interpreter : String)
  | incompatible (interpreter : String) (verdict : Verdict)
  /-- A change was rejected, and `current` stays in effect. -/
  | keptPrevious (rejected : String) (current : Option String)
  /-- A change was ignored in favour of the configured default. -/
  | changeIgnored (interpreter : String)
  deriving Repr

/-- Why an operation failed. -/
inductive Error
  | hostUnavailable
  | noInterpreter
  | incompatible (verdict : Verdict)
  /-- The server could not be launched; the causes are given outermost first. -/
  | launch (causes : List String)
  deriving Repr

/-- The wording of an error. -/
def Error.message : Error → String
  | hostUnavailable => Message.hostUnavailable.display
  | noInterpreter => Message.selectInterpreter.display
  | incompatible verdict => verdict.display
  | launch causes => "failed to launch server: " ++ ": ".intercalate causes

/-- What an operation leads to. -/
inductive Result
  | done
  | value (b : Bool)
  | failed (error : Error)
  deriving Repr

end Gatekeeper.Session
