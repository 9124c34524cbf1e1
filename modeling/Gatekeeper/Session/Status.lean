import Gatekeeper.Message

set_option autoImplicit false

/-!
# Sessions and their status

A session is one launched server; its number tells it apart from those before it. The status is
what the host is shown after every change.
-/

namespace Gatekeeper.Session

/-- The number of a session. -/
structure Id where
  val : Nat
  deriving DecidableEq, Repr

/-- The number after the given one. -/
def Id.next (i : Id) : Id := ⟨i.val + 1⟩

/-- The text of a session number. -/
def Id.display (i : Id) : String := "#" ++ toString i.val

/-- Whether a server runs. -/
inductive Phase
  | stopped
  | starting
  | running
  deriving DecidableEq, Repr

/-- The name of a phase. -/
def Phase.label : Phase → String
  | .stopped => "stopped"
  | .starting => "starting"
  | .running => "running"

/-- What is published after every change. -/
structure Status where
  phase : Phase := .stopped
  /-- The interpreter that was verified last. -/
  interpreter : Option String := none
  deriving DecidableEq, Repr

/-- Whether a server is up. -/
def Status.isActive (s : Status) : Bool := s.phase == .running

/-- The text of the status indicator. -/
def Status.indicator (s : Status) : String :=
  match s.phase, s.interpreter with
  | .running, some path => activeText path
  | _, _ => inactiveText

end Gatekeeper.Session
