import Gatekeeper.Config.Decode
import Gatekeeper.Machine.Disk
import Gatekeeper.Toml.Edit

set_option autoImplicit false

/-!
# The configuration file

Loading the configuration, and recording the interpreter that was used last. Recording edits one key
of the file and leaves the rest as the user wrote it; the new file takes the place of the old one in
one step, and where anything fails the old one stays.
-/

namespace Gatekeeper.Config

open Machine

/-- Why the new file could not be written. -/
inductive WriteFault
  | io (cause : IoError)
  /-- The old file is not a TOML document. -/
  | notToml
  /-- What the old file has under `interpreter` is not a table. -/
  | notTable
  deriving DecidableEq, Repr

/-- Whether the contents of the old file are at fault. -/
def WriteFault.isInvalidData : WriteFault → Bool
  | io _ => false
  | notToml => true
  | notTable => true

/-- Why an operation on the file at `path` failed. -/
inductive Error
  | read (path : String) (cause : IoError)
  | parse (path : String)
  | write (path : String) (fault : WriteFault)
  deriving DecidableEq, Repr

/-- The file that an error is about. -/
def Error.path : Error → String
  | read path _ => path
  | parse path => path
  | write path _ => path

/-- The wording of an error, as far as it is this library's own. -/
def Error.message : Error → String
  | read path cause => "failed to read config at " ++ path ++ ": " ++ cause.message
  | parse path => "failed to parse config at " ++ path ++ ": "
  | write path (.io cause) => "failed to write config at " ++ path ++ ": " ++ cause.message
  | write path .notToml => "failed to write config at " ++ path ++ ": "
  | write path .notTable =>
    "failed to write config at " ++ path ++ ": `interpreter` is not a table"

/-- The configuration file of a user with the given home directory. -/
def pathIn (home : String) : String := Path.join (Path.join home ".spacyls") "config.toml"

/-- The configuration file of the user whose variables are given. -/
def path? (env : Environment) : Option String := (env.nonEmpty? "HOME").map pathIn

/-- The configuration in a file, none if there is no file. -/
def load (d : Disk) (cwd : Location) (path : String) : Except Error (Option Config) :=
  if d.occupied cwd path then
    match d.readText cwd path with
    | .error cause => .error (.read path cause)
    | .ok content =>
      match ofText? content with
      | some config => .ok (some config)
      | none => .error (.parse path)
  else .ok none

/-- The configuration in a file, and the default one where there is none or it cannot be used. -/
def loadOrDefault (d : Disk) (cwd : Location) (path : Option String) : Config :=
  match path.map (load d cwd) with
  | some (.ok (some config)) => config
  | _ => {}

/-- Integers in a file that is edited must fit 64 bits. -/
def integersEditable (fields : List (String × Toml.Value)) : Bool :=
  (Toml.Value.table fields).integersWithin (-(Decimal.twoTo 63)) (Decimal.twoTo 63 - 1)

/-- The contents of a configuration file with the given interpreter as the default. -/
def withInterpreter (content interpreter : String) : Except WriteFault String :=
  match Toml.Document.read? content.toList with
  | none => .error .notToml
  | some (doc, fields) =>
    if integersEditable fields then
      match doc.putString? "interpreter" "default_path" interpreter with
      | some doc => .ok (String.ofList doc.render)
      | none => .error .notTable
    else .error .notToml

/-- Makes the directory of a file if it is missing. -/
def prepare (d : Disk) (cwd : Location) (path : String) : Except IoError Disk :=
  d.makeTree cwd (Path.ancestors path).tail

/-- The disk after that was tried: what could be made stays. -/
def prepared (d : Disk) (cwd : Location) (path : String) : Disk :=
  (d.growTree cwd (Path.ancestors path).tail).1

/-- The contents of a file, empty if there is none. -/
def contents (d : Disk) (cwd : Location) (path : String) : Except IoError String :=
  if d.occupied cwd path then d.readText cwd path else .ok ""

/-- Records an interpreter as the default in a file. The file and its directory are made if they are
missing. The disk afterwards comes with the error, if there is one. -/
def persist (d : Disk) (cwd : Location) (path interpreter : String) : Disk × Option Error :=
  match prepare d cwd path with
  | .error cause => (prepared d cwd path, some (.write path (.io cause)))
  | .ok d =>
    match contents d cwd path with
    | .error cause => (d, some (.read path cause))
    | .ok content =>
      match withInterpreter content interpreter with
      | .error fault => (d, some (.write path fault))
      | .ok content =>
        match d.install cwd path (Text.Utf8.encode content.toList) with
        | .error cause => (d, some (.write path (.io cause)))
        | .ok d => (d, none)

end Gatekeeper.Config
