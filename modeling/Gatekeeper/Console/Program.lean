import Gatekeeper.Console.Arguments
import Gatekeeper.Console.Terminal

set_option autoImplicit false

/-!
# The program

The program as a whole, on a machine: it reads its arguments and either ends at once or waits for
lines. Before anything else it makes sure of its log file.
-/

namespace Gatekeeper.Console

open Machine Server

/-- Where the program runs. -/
structure Site where
  world : World
  /-- The number of the program's process. -/
  process : Nat := 0

/-- The end of a run. -/
structure Ending where
  fleet : Fleet
  code : Nat
  /-- What is written to the error output. -/
  complaint : String := ""

/-- A run of the program. -/
inductive Program
  /-- Waits for a line. -/
  | waiting (t : Terminal)
  | ended (e : Ending)

namespace Site

/-- The files in which the log may be kept, the better one first. -/
def logFiles (p : Site) : List String :=
  let inDirectory (dir : String) := Path.join (Path.join dir "logs") "spacyls.log"
  let home := p.world.environment.nonEmpty? "HOME"
  (home.map fun home => inDirectory (Path.join home ".spacyls")).toList ++ [inDirectory ".spacyls"]

/-- Makes sure of the first log file that can be kept. Directories that were made on the way
stay. -/
def openLog (cwd : Location) (disk : Disk) : List String → Disk
  | [] => disk
  | file :: others =>
    match Config.prepare disk cwd file with
    | .error _ => openLog cwd (Config.prepared disk cwd file) others
    | .ok disk =>
      match disk.touch cwd file with
      | .error _ => openLog cwd disk others
      | .ok disk => disk

/-- The site with the log open. -/
def withLog (p : Site) : Site :=
  { p with world := { p.world with disk := openLog p.world.cwd p.world.disk p.logFiles } }

/-- The servers that run there: none yet. -/
def fleet (p : Site) : Fleet := { world := p.world }

/-- The end of a run without servers. -/
def exit (p : Site) (code : Nat) : Program := .ended { fleet := p.fleet, code }

/-- The configuration file: the one that was named, or that of the user. -/
def configPath (p : Site) (named : Option String) : Option String :=
  named.or (Config.path? p.world.environment)

/-- The configuration that is in effect. -/
def config (p : Site) (named : Option String) : Config :=
  Config.loadOrDefault p.world.disk p.world.cwd (p.configPath named)

/-- Shows the configuration. -/
def showConfig (p : Site) (named : Option String) : List String :=
  let config := p.config named
  let file := match p.configPath named with
    | some path =>
      let state := if p.world.disk.occupied p.world.cwd path then "" else " (not created yet)"
      "config: " ++ path ++ state
    | none => "config: no home directory"
  let interpreter := (config.interpreter.default? p.world.environment).getD "(host environment)"
  [file, "default interpreter: " ++ interpreter,
    "follow interpreter changes: " ++ toString config.interpreter.followChanges]
    ++ config.requirements.map fun r => "requires: " ++ r.name ++ " >= " ++ r.minimum.text

/-- Verifies an interpreter and says what came of it. -/
def check (p : Site) (config : Config) (selection : String) : List String × Program :=
  let path := Discovery.resolve p.world.disk p.world.cwd selection
  let (verdict, fleet) :=
    p.fleet.verify path (config.interpreter.timeout * 1000) config.requirements
  ([path ++ ": " ++ verdict.display],
    .ended { fleet, code := if verdict.isCompatible then 0 else 1 })

/-- The interpreter to start with, and what is printed about it. The settings of a development
workspace come before the configuration. -/
def preferred (p : Site) (config : Config) (workspace : Option String) :
    List String × Option String :=
  let configured := config.interpreter.default? p.world.environment
  match workspace.map (Discovery.ofWorkspace p.world.disk p.world.cwd) with
  | some (.ok (some path)) => ([], some path)
  | some (.error e) => (["Ignoring development settings: " ++ e.message], configured)
  | _ => ([], configured)

/-- What the controller works with. -/
def equipment (p : Site) (config : Config) : Session.Equipment where
  host := Discovery.Host.ofEnvironment p.world.environment p.world.cwd.path
  spec :=
    ({ module := config.server.module, root := config.server.rootFrom p.world.cwd.path,
       extraArgs := config.server.args } : LaunchSpec).withExtensions config.server.extensions
  requirements := config.requirements
  timeout := config.interpreter.timeout * 1000
  process := p.process

/-- Runs a server and waits for lines. -/
def serve (p : Site) (named workspace : Option String) : List String × Program :=
  let config := p.config named
  let (told, defaultInterpreter) := p.preferred config workspace
  let settings : Session.Settings :=
    { defaultInterpreter, followChanges := config.interpreter.followChanges }
  let desk : Desk := { live := { equipment := p.equipment config, fleet := p.fleet } }
  let controller := Session.Controller.initial settings desk.live.surroundings
  let (lines, t) :=
    Terminal.activate { running := ⟨controller, desk⟩, settings, configPath := p.configPath named }
  match t with
  | .ok t => (told ++ lines, .waiting t)
  | .error e =>
    (told ++ lines,
      .ended { fleet := p.fleet, code := 1, complaint := "Error: " ++ e.message ++ "\n" })

/-- Starts the program with its arguments: what it prints, and how it goes on. -/
def start (p : Site) (args : List String) : List String × Program :=
  match Request.read args with
  | .misuse => ([], p.exit 2)
  | .help => ([], p.exit 0)
  | .version => ([clientName ++ " " ++ clientVersion], p.exit 0)
  | .perform named task =>
    let p := p.withLog
    match task with
    | .config => (p.showConfig named, p.exit 0)
    | .check interpreter => p.check (p.config named) interpreter
    | .run workspace => p.serve named workspace

end Site

namespace Program

/-- The end of the input: what is printed, and the program after it. -/
def close : Program → List String × Program
  | waiting t =>
    let (lines, t) := t.close
    (lines, .ended { fleet := t.running.parts.live.fleet, code := 0 })
  | ended e => ([], .ended e)

/-- Obeys lines that come together. A document is shown only when its file has been read, and the
other commands do not wait for that: `documents` are the files that are being read. If the session
ends first, they are not shown. -/
def obeyAll (documents : List String) (t : Terminal) : List String → List String × Program
  | [] =>
    let (lines, t) := Terminal.doAll (documents.map fun path => Terminal.obey (.open path)) t
    (lines, waiting t)
  | line :: rest =>
    match Command.read line with
    | .ok none => obeyAll documents t rest
    | .ok (some .quit) => (waiting t).close
    | .ok (some (.open path)) => obeyAll (documents ++ [path]) t rest
    | .ok (some c) =>
      let (lines, t) := t.obey c
      let (more, p) := obeyAll documents t rest
      (lines ++ more, p)
    | .error complaint =>
      let (more, p) := obeyAll documents t rest
      (complaint.message :: more, p)

/-- Input: what is printed, and the program after it. -/
def line (p : Program) (s : String) : List String × Program :=
  match p with
  | waiting t => obeyAll [] t ((s.toList.splitOn '\n').map String.ofList)
  | ended e => ([], .ended e)

end Program

end Gatekeeper.Console
