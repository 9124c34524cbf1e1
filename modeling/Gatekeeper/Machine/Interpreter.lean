import Gatekeeper.Json.Basic

set_option autoImplicit false

/-!
# Scripted interpreters

Programs that stand in for an interpreter: what they print when they are probed, and how they serve
when they are run as a server, is fixed in advance.
-/

namespace Gatekeeper.Machine

/-- What a scripted server does. -/
inductive Action
  /-- Answers the message that it was cued by, with the given members. -/
  | reply (members : List (String × Json))
  /-- Sends a message. -/
  | send (message : Json)
  /-- Writes bytes, whatever they are. -/
  | write (bytes : List UInt8)
  /-- Does nothing for so many milliseconds. -/
  | pause (length : Nat)
  | exit
  | closeOutput
  /-- Does nothing more. -/
  | hang
  deriving Repr

/-- What a scripted server does at which messages, by method. -/
abbrev Cues := List (String × List Action)

/-- What a scripted interpreter does when it is probed. -/
structure Recital where
  stdout : List UInt8 := []
  stderr : List UInt8 := []
  code : Nat := 0
  /-- Whether it dies by a signal instead of exiting. -/
  aborts : Bool := false
  deriving Repr

/-- A scripted interpreter. -/
structure Interpreter where
  recital : Recital := {}
  /-- How it serves, start by start. The last entry goes for all further starts. -/
  servers : List Cues := []
  deriving Repr

namespace Interpreter

/-- The name under which the cues keep messages without a method. -/
def responseCue : String := "<response>"

/-- How an interpreter serves when it is started after so many starts before. -/
def cues (i : Interpreter) (earlier : Nat) : Cues :=
  (i.servers[earlier]?).getD (i.servers.getLast?.getD [])

end Interpreter

/-- What a server does that was not told otherwise. -/
def Cues.usual (method : String) : List Action :=
  match method with
  | "initialize" => [.reply [("result", .ofMembers [("capabilities", .ofMembers [])])]]
  | "shutdown" => [.reply [("result", .null)]]
  | "exit" => [.exit]
  | _ => []

/-- What a scripted server does at a message. -/
def Cues.actions (c : Cues) (message : Json) : List Action :=
  let method := ((message.get? "method").bind Json.text?).getD Interpreter.responseCue
  (c.lookup method).getD (usual method)

end Gatekeeper.Machine
