import Gatekeeper.Console.Program

set_option autoImplicit false

/-!
# The command line

Reads the arguments, the variables and the files that a run asks for, and prints what the run
prints. The run itself takes place on a machine that holds these files only; of its programs it runs
shell scripts. A configuration file that the run has changed is written back.
-/

namespace Gatekeeper.Main

open Console Machine

/-- The location of an absolute path. -/
def location (path : String) : Location := Path.names path

/-- The variables on which every run depends. -/
def variableNames : List String := ["HOME", "VIRTUAL_ENV", "CONDA_PREFIX", "PATH"]

/-- The variables with these names that are set. -/
def readVariables (names : List String) : IO Environment :=
  names.filterMapM fun name => do return (← IO.getEnv name).map fun value => (name, value)

/-- A disk that holds nothing but the shells. -/
def shellsOnly : Disk :=
  ⟨(["bin"], .dir false) :: World.shells.map fun name =>
    (["bin", name], .file { bytes := [], executable := true })⟩

/-- The disk with the file at a path copied to it, if there is one. -/
def copyIn (cwd path : String) (disk : Disk) : IO Disk := do
  try
    let bytes ← IO.FS.readBinFile path
    let disk := (Config.prepare disk (location cwd) path).toOption.getD disk
    let file : File := { bytes := bytes.toList, executable := true }
    return disk.put (location (Path.under cwd path)) (.file file)
  catch _ => return disk

/-- The configuration file of a request. -/
def configFile (env : Environment) : Request → Option String
  | .perform config _ => config.or (Config.path? env)
  | _ => none

/-- The files that a request asks for. -/
def requestFiles (env : Environment) (r : Request) : List String :=
  (configFile env r).toList ++ match r with
    | .perform _ (.run workspace) => (workspace.map Discovery.settingsPath).toList
    | .perform _ (.check interpreter) => [interpreter]
    | _ => []

/-- Copies the file that a line asks for to the disk of a run. -/
def copyForLine (cwd line : String) (program : Program) : IO Program := do
  match program, Command.read line with
  | .waiting t, .ok (some (.open path)) => return .waiting (t.onDisk (← copyIn cwd path t.disk))
  | .waiting t, .ok (some (.use path)) => return .waiting (t.onDisk (← copyIn cwd path t.disk))
  | program, _ => return program

/-- Runs the program to its end. -/
partial def loop (cwd : String) (input : IO.FS.Stream) (program : Program) : IO Ending := do
  match program with
  | .ended e => return e
  | .waiting _ =>
    let line ← input.getLine
    let (lines, program) ←
      if line.isEmpty then pure program.close
      else do
        let program ← copyForLine cwd line program
        pure (program.line line)
    lines.forM fun l => IO.println l
    loop cwd input program

/-- Writes a file back if it has changed. -/
def copyOut (cwd path : String) (before after : Disk) : IO Unit := do
  match after.read (location cwd) path with
  | .ok bytes =>
    if (before.read (location cwd) path).toOption != some bytes then
      (Path.ancestors path).tail.head?.forM fun dir => IO.FS.createDirAll dir
      IO.FS.writeBinFile path ⟨bytes.toArray⟩
  | .error _ => return

/-- Runs the program with its arguments and gives its exit code. -/
def run (args : List String) : IO UInt32 := do
  let cwd := (← IO.currentDir).toString
  let env ← readVariables variableNames
  let request := Request.read args
  let disk ← (requestFiles env request).foldlM (fun disk path => copyIn cwd path disk) shellsOnly
  let config := (disk.readText (location cwd) ((configFile env request).getD "")).toOption.getD ""
  let environment := env ++ (← readVariables (Environment.references config))
  let site : Site := { world := { disk, cwd := location cwd, environment } }
  let (lines, program) := site.start args
  lines.forM fun l => IO.println l
  let ending ← loop cwd (← IO.getStdin) program
  (← IO.getStderr).putStr ending.complaint
  (configFile env request).forM fun path => copyOut cwd path disk ending.fleet.world.disk
  return ending.code.toUInt32

end Gatekeeper.Main

/-- The program. -/
def main (args : List String) : IO UInt32 := Gatekeeper.Main.run args
