import Gatekeeper.Console.Command
import Gatekeeper.Session.Crowd

set_option autoImplicit false

/-!
# Errands

A command that needs the controller is run as an errand of its own while further lines are read, so
several errands can be under way. Some have to read a file before they can ask for the controller.
When the reading of lines ends, a last errand deactivates the controller.
-/

namespace Gatekeeper.Console

open Session

/-- What an errand has to do next. -/
inductive Duty
  /-- To ask for the controller, with an operation. -/
  | operation (o : Operation)
  /-- To read a file, and then to show it. -/
  | document (path : String)
  deriving DecidableEq, Repr

/-- An errand that was begun and has not asked for the controller yet. -/
structure Errand where
  /-- Errands are numbered in the order in which they are begun. -/
  number : Nat
  duty : Duty
  deriving DecidableEq, Repr

/-- The errand for a command, where it needs one. -/
def Command.duty? : Command → Option Duty
  | .restart => some (.operation .restart)
  | .stop => some (.operation .stop)
  | .use path => some (.operation (.select path))
  | .open path => some (.document path)
  | .status => none
  | .interpreter => none
  | .help => none
  | .quit => none

/-- No command asks for a deactivation. -/
theorem Command.duty_ne_deactivate (c : Command) : c.duty? ≠ some (.operation .deactivate) := by
  cases c <;> exact nofun

/-- A session between two steps. -/
structure Floor where
  /-- The lines that have not been read. -/
  lines : List String
  /-- The errands that have not asked for the controller. -/
  errands : List Errand := []
  /-- The number of the next errand. -/
  next : Nat := 0
  /-- Whether the reading of lines has ended. -/
  closed : Bool := false
  crowd : Crowd

namespace Floor

/-- Begins an errand. -/
def send (f : Floor) (duty : Duty) : Floor :=
  { f with errands := f.errands ++ [⟨f.next, duty⟩], next := f.next + 1 }

/-- Ends the reading of lines. -/
def close (f : Floor) : Floor :=
  { f.send (.operation .deactivate) with lines := [], closed := true }

/-- A session that begins: the controller is being activated. -/
def opening (settings : Settings) (s : Surroundings) (lines : List String) : Floor :=
  { lines, crowd := { controller := .initial settings s } : Floor }.send (.operation .activate)

end Floor

end Gatekeeper.Console
