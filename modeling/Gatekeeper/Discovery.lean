import Gatekeeper.Environment
import Gatekeeper.Json.Reader
import Gatekeeper.Machine.Disk
import Gatekeeper.Text.Blank

set_option autoImplicit false

/-!
# Finding interpreters

Where candidates come from: a selection by the user, which may name an environment directory; the
host's active interpreter, which is that of the active environment or the first one on the search
path; and the settings of a development workspace.
-/

namespace Gatekeeper.Discovery

open Machine

/-- The interpreter of an environment directory. -/
def interpreterIn (dir : String) : String := Path.join (Path.join dir "bin") "python"

/-- The interpreter that a selection stands for. A directory is taken for an environment. -/
def resolve (disk : Disk) (cwd : Location) (selection : String) : String :=
  if disk.isDir cwd selection then interpreterIn selection else selection

/-- What the host knows about interpreters. -/
structure Host where
  virtualEnv : Option String := none
  condaPrefix : Option String := none
  searchPath : Option String := none
  /-- The directory from which relative entries of the search path are taken. -/
  cwd : String := ""
  /-- What `~` in front of an entry of the search path stands for. -/
  home : Option String := none
  deriving Repr

namespace Host

/-- The host of a process with the given variables, started in `cwd`. -/
def ofEnvironment (env : Environment) (cwd : String) : Host where
  virtualEnv := env.nonEmpty? "VIRTUAL_ENV"
  condaPrefix := env.nonEmpty? "CONDA_PREFIX"
  searchPath := env.nonEmpty? "PATH"
  cwd := cwd
  home := env.nonEmpty? "HOME"

/-- Whether the host can tell of interpreters at all. -/
def available (h : Host) : Bool :=
  h.virtualEnv.isSome || h.condaPrefix.isSome || h.searchPath.isSome

/-- The names under which an interpreter is looked for, the better one first. -/
def programNames : List String := ["python3", "python"]

/-- An entry of the search path, with the home directory in the place of `~`. -/
def expandHome (home : Option String) (entry : String) : String :=
  match home, Path.components entry with
  | some dir, "~" :: rest => rest.foldl Path.join dir
  | _, _ => entry

/-- The entries of a search path. -/
def entries (searchPath : String) : List String :=
  (searchPath.toList.splitOn ':').map String.ofList

/-- The candidates on the search path, in the order in which they are tried. -/
def candidates (h : Host) (searchPath : String) : List String :=
  programNames.flatMap fun name =>
    (entries searchPath).map fun entry =>
      Path.under h.cwd (Path.join (expandHome h.home entry) name)

/-- The interpreter that is active on the host. -/
def active? (h : Host) (disk : Disk) (cwd : Location) : Option String :=
  match h.virtualEnv, h.condaPrefix, h.searchPath with
  | some dir, _, _ => some (interpreterIn dir)
  | none, some dir, _ => some (interpreterIn dir)
  | none, none, some searchPath => (h.candidates searchPath).find? (disk.isProgram cwd)
  | none, none, none => none

end Host

/-- The settings of a development workspace that name its environment. -/
def settingsKey : String := "python.defaultInterpreterPath"

/-- Why the settings of a development workspace could not be used. -/
inductive SettingsError
  | unreadable (path : String) (cause : IoError)
  | malformed (path : String)
  deriving DecidableEq, Repr

/-- The wording of an error, as far as it is this library's own. -/
def SettingsError.message : SettingsError → String
  | .unreadable path cause => "failed to read " ++ path ++ ": " ++ cause.message
  | .malformed path => "failed to parse " ++ path ++ ":"

/-- The file with the settings of a workspace. -/
def settingsPath (workspace : String) : String :=
  Path.join (Path.join workspace ".vscode") "settings.json"

/-- The environment that settings name, unless it is blank. -/
def environmentIn (settings : Json) : Option String :=
  ((settings.get? settingsKey).bind Json.text?).filter fun s => !(Text.trim s.toList).isEmpty

/-- The interpreter that the settings of a development workspace name, if there are any. -/
def ofWorkspace (disk : Disk) (cwd : Location) (workspace : String) :
    Except SettingsError (Option String) :=
  let path := settingsPath workspace
  if disk.occupied cwd path then
    match disk.readText cwd path with
    | .error cause => .error (.unreadable path cause)
    | .ok content =>
      match Json.read? content.toList with
      | none => .error (.malformed path)
      | some settings =>
        .ok ((environmentIn settings).map fun dir => interpreterIn (Path.join workspace dir))
  else .ok none

end Gatekeeper.Discovery
