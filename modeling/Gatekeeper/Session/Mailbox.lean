import Gatekeeper.Session.Event

set_option autoImplicit false

/-!
# The host's mailbox

Events wait for the host in a mailbox of limited size. An event that finds it full, or finds that
the host has gone away, is lost; the sender never waits.
-/

namespace Gatekeeper.Session

/-- The events that the host has not taken yet, in order. -/
structure Mailbox where
  queued : List Event := []
  /-- Whether the host still listens. -/
  listening : Bool := true
  deriving Repr

namespace Mailbox

/-- The number of events that can wait. -/
def capacity : Nat := 64

/-- Puts an event into the mailbox if there is room for it. -/
def post (m : Mailbox) (e : Event) : Mailbox :=
  if m.listening && m.queued.length < capacity then { m with queued := m.queued ++ [e] } else m

/-- Takes all events. -/
def drain (m : Mailbox) : List Event × Mailbox := (m.queued, { m with queued := [] })

/-- The host goes away. -/
def close (_ : Mailbox) : Mailbox := { queued := [], listening := false }

end Mailbox

end Gatekeeper.Session
