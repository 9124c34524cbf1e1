set_option autoImplicit false

/-!
# Messages

The numbered messages that a user sees, and the fixed texts of the status indicator. The first
letter of a code gives its severity.
-/

namespace Gatekeeper

/-- How grave a message is. -/
inductive Severity
  | info
  | warning
  | error
  deriving DecidableEq, Repr

/-- The name of a severity. -/
def Severity.label : Severity → String
  | .info => "info"
  | .warning => "warning"
  | .error => "error"

/-- The messages by what they report. -/
inductive Message
  | hostUnavailable
  | interpreterNotFound
  | missingModules
  | versionsIncompatible
  | interpreterError
  | pyglsNotFound
  | spacyNotFound
  | pyglsVersion
  | spacyVersion
  | selectInterpreter
  | started
  | stopped
  | interpreterCompatible
  deriving DecidableEq, Repr

namespace Message

/-- Every message, by code. -/
def all : List Message :=
  [hostUnavailable, interpreterNotFound, missingModules, versionsIncompatible, interpreterError,
    pyglsNotFound, spacyNotFound, pyglsVersion, spacyVersion, selectInterpreter, started, stopped,
    interpreterCompatible]

/-- The code of a message. -/
def code : Message → String
  | hostUnavailable => "E001"
  | interpreterNotFound => "E002"
  | missingModules => "E003"
  | versionsIncompatible => "E004"
  | interpreterError => "E005"
  | pyglsNotFound => "E006"
  | spacyNotFound => "E007"
  | pyglsVersion => "E008"
  | spacyVersion => "E009"
  | selectInterpreter => "W001"
  | started => "I001"
  | stopped => "I002"
  | interpreterCompatible => "I003"

/-- The text of a message. -/
def text : Message → String
  | hostUnavailable => "Python interpreter integration not available"
  | interpreterNotFound => "Selected python interpreter path does not exist"
  | missingModules => "Missing modules to run spaCy Extension"
  | versionsIncompatible => "Module versions not compatible"
  | interpreterError => "Error when using python interpreter"
  | pyglsNotFound => "Module pygls not found"
  | spacyNotFound => "Module spaCy not found"
  | pyglsVersion => "Version of pygls not compatible"
  | spacyVersion => "Version of spaCy not compatible"
  | selectInterpreter => "Please select a python interpreter"
  | started => "spaCy Extension started"
  | stopped => "spaCy Extension stopped"
  | interpreterCompatible => "Python interpreter compatible"

/-- The severity that a code's first letter stands for. -/
def severity (m : Message) : Severity :=
  match m.code.toList.head? with
  | some 'E' => .error
  | some 'W' => .warning
  | _ => .info

/-- The code in brackets. -/
def tag (m : Message) : String := "[" ++ m.code ++ "]"

/-- The code in brackets before the text. -/
def display (m : Message) : String := m.tag ++ " " ++ m.text

/-- The message with the given code. -/
def ofCode? (code : String) : Option Message := all.find? (·.code == code)

end Message

/-- What the status indicator shows for a server that runs on `interpreter`. -/
def activeText (interpreter : String) : String := "spaCy Extension active on: " ++ interpreter

/-- What the status indicator shows while no server runs. -/
def inactiveText : String := "spaCy Extension not active. Please select Python interpreter."

/-- What a user is told who selected an interpreter that cannot be used. -/
def incompatibleText : String :=
  "Selected python interpreter not compatible. See the output for more information."

end Gatekeeper
