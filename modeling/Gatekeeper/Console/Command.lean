import Gatekeeper.Text.Blank
import Gatekeeper.Text.Find

set_option autoImplicit false

/-!
# Commands

The commands that a user types while a server is run. A command is a word; some have a path after
it, which may contain blanks.
-/

namespace Gatekeeper.Console

open Text

/-- What a user can ask for. -/
inductive Command
  | status
  | interpreter
  | restart
  | stop
  /-- Use another interpreter or environment directory. -/
  | use (path : String)
  /-- Show a document to the server. -/
  | «open» (path : String)
  | help
  | quit
  deriving DecidableEq, Repr

/-- Why a line is no command. -/
inductive Complaint
  | pathMissing (name : String)
  | unknown (word : String)
  deriving DecidableEq, Repr

/-- The wording of a complaint. -/
def Complaint.message : Complaint → String
  | pathMissing name => "usage: " ++ name ++ " <path>"
  | unknown word => "unknown command '" ++ word ++ "' (try 'help')"

namespace Command

/-- The first word of a trimmed line, and the text behind it. -/
def split (line : List Char) : List Char × List Char :=
  match cutAt? isBlank line with
  | some (word, rest) => (word, trim rest)
  | none => (line, [])

/-- A command with a path. -/
def withPath (name : String) (path : List Char) (command : String → Command) :
    Except Complaint Command :=
  if path.isEmpty then .error (.pathMissing name) else .ok (command (String.ofList path))

/-- The command in a line. Blank lines have none. -/
def read (line : String) : Except Complaint (Option Command) :=
  let line := trim line.toList
  if line.isEmpty then .ok none
  else
    let (word, rest) := split line
    some <$> match String.ofList word with
      | "status" => .ok .status
      | "interpreter" => .ok .interpreter
      | "restart" => .ok .restart
      | "stop" => .ok .stop
      | "use" => withPath "use" rest .use
      | "open" => withPath "open" rest .open
      | "help" => .ok .help
      | "?" => .ok .help
      | "quit" => .ok .quit
      | "exit" => .ok .quit
      | other => .error (.unknown other)

/-- The list of the commands. -/
def helpText : String :=
  "commands:
  status          show whether the server is running
  interpreter     show the bound interpreter
  restart         stop and start the server
  stop            stop the server
  use <path>      switch to another interpreter or environment directory
                  (applies even when the configured default is pinned)
  open <file>     send a .cfg document to the server
  help            show this help
  quit            stop the server and exit"

end Command

end Gatekeeper.Console
