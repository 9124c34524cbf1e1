import Gatekeeper.Environment
import Gatekeeper.Requirement
import Gatekeeper.Text.Blank

set_option autoImplicit false

/-!
# The configuration

What a user can set: the interpreter to start with, how the server is run, and which libraries it
needs.
-/

namespace Gatekeeper

namespace Config

/-- The settings about the interpreter. -/
structure Interpreter where
  /-- An interpreter or an environment directory. References to variables are expanded. -/
  defaultPath : Option String := none
  /-- Whether the host may replace a configured default. -/
  followChanges : Bool := true
  /-- How many seconds a probe may take. -/
  probeTimeout : Nat := 10
  deriving DecidableEq, Repr

/-- The interpreter to start with: the configured one with variables expanded, unless it is
blank. -/
def Interpreter.default? (i : Interpreter) (env : Environment) : Option String :=
  i.defaultPath.bind fun raw =>
    let path := Text.trim (env.expand raw).toList
    if path.isEmpty then none else some (String.ofList path)

/-- How many seconds a probe is given: at least one. -/
def Interpreter.timeout (i : Interpreter) : Nat := max i.probeTimeout 1

/-- The settings about the server. -/
structure Server where
  /-- The Python module that is run. -/
  module : String := "server"
  /-- The directory in which it is run. -/
  root : Option String := none
  /-- Further arguments. -/
  args : List String := []
  /-- The extensions of the documents that it is shown. -/
  extensions : List String := ["cfg"]
  deriving DecidableEq, Repr

/-- The directory in which the server is run: the current one where none is set. -/
def Server.rootFrom (s : Server) (cwd : String) : String := s.root.getD cwd

end Config

/-- The configuration. -/
structure Config where
  interpreter : Config.Interpreter := {}
  server : Config.Server := {}
  requirements : List Requirement := Requirement.defaults
  deriving Repr

end Gatekeeper
