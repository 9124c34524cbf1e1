import Gatekeeper.Environment
import Gatekeeper.Machine.Disk
import Gatekeeper.Machine.Interpreter
import Gatekeeper.Machine.Shell
import Gatekeeper.Probe.Verify

set_option autoImplicit false

/-!
# Programs and how they run

A machine: its files, and which of its programs are scripted interpreters. A program is named by a
path or looked up on the search path. Shell scripts and a few tools of the system run as well.
-/

namespace Gatekeeper.Machine

/-- The path of a location. -/
def Location.path (loc : Location) : String := "/" ++ "/".intercalate loc

/-- A machine. -/
structure World where
  disk : Disk
  /-- The working directory. -/
  cwd : Location := []
  /-- The variables of the programs that are run. -/
  environment : Environment := []
  /-- The scripted interpreters by location. -/
  interpreters : List (Location × Interpreter) := []

/-- What a file turns out to be when it is run. -/
inductive Image
  | interpreter (i : Interpreter)
  | script (text : List Char)
  /-- A tool of the system. -/
  | tool (name : String)

/-- How a program ended and what it printed. -/
abbrev Run := Shell.Outcome

namespace World

/-- Where programs are looked for if nothing is said about it. -/
def defaultSearchPath : String := "/bin:/usr/bin"

/-- The programs that are the shell. -/
def shells : List String := ["sh", "dash", "bash"]

/-- The location of a program that can be run, from a working directory. -/
def program (w : World) (cwd : Location) (path : String) : Except IoError (Location × File) :=
  (w.disk.find cwd path true).bind fun
    | .entry loc (.file f) => if f.executable then .ok (loc, f) else .error .denied
    | .entry _ _ => .error .denied
    | .vacant _ => .error .noEntry

/-- The first of several paths that is a program. One that may not be run is passed over, but
remembered. -/
def firstProgram (w : World) (cwd : Location) (denied : Bool) :
    List String → Except IoError (Location × File)
  | [] => .error (if denied then .denied else .noEntry)
  | path :: rest =>
    match w.program cwd path with
    | .ok found => .ok found
    | .error .denied => firstProgram w cwd true rest
    | .error .noEntry => firstProgram w cwd denied rest
    | .error .notDirectory => firstProgram w cwd denied rest
    | .error e => .error e

/-- The program with a name. A name without slashes is looked up on the search path. -/
def lookUp (w : World) (cwd : Location) (name : String) : Except IoError (Location × File) :=
  if name == "" then .error .noEntry
  else if name.toList.contains '/' then w.program cwd name
  else
    let dirs := ((w.environment.get? "PATH").getD defaultSearchPath).toList.splitOn ':'
    w.firstProgram cwd false (dirs.map fun dir => Path.join (String.ofList dir) name)

/-- The program that the first line of a script names. -/
def scriptRunner? (bytes : List UInt8) : Option String :=
  match Text.Utf8.decodeLossy (bytes.takeWhile (· != 10)) with
  | '#' :: '!' :: line => (Text.words line).head?.map String.ofList
  | _ => none

/-- The name of the tool at a location, if there is one. -/
def tool? (loc : Location) : Option String :=
  match loc with
  | ["bin", name] => some name
  | ["usr", "bin", name] => some name
  | _ => none

/-- What a file is when it is run. -/
def image (w : World) (cwd : Location) (loc : Location) (f : File) : Except IoError Image :=
  match w.interpreters.lookup loc with
  | some i => .ok (.interpreter i)
  | none =>
    match tool? loc, scriptRunner? f.bytes with
    | some name, _ => .ok (.tool name)
    | none, none => .error .unknownFormat
    | none, some runner =>
      (w.program cwd runner).bind fun (loc, _) =>
        match tool? loc with
        | some name =>
          if shells.contains name then .ok (.script (Text.Utf8.decodeLossy f.bytes))
          else .ok (.tool name)
        | none => .error .unknownFormat

/-- The program with a name, ready to be run with arguments from a working directory. -/
def load (w : World) (cwd : Location) (name : String) (args : List String) :
    Except IoError (Location × Image) :=
  if (name :: args).any fun s => s.toList.contains '\x00' then .error .nulInArgument
  else
    (w.lookUp cwd name).bind fun (loc, f) => (w.image cwd loc f).map fun image => (loc, image)

/-- What a scripted interpreter does when it is probed. -/
def recite (r : Recital) : Run :=
  ⟨r.stdout, r.stderr, if r.aborts then .killed else .exited (r.code % 256), []⟩

/-- Runs a script in a working directory, which it finds in the variable `PWD`. -/
def runScript (w : World) (cwd : Location) (name : String) (args : List String)
    (script : List Char) : Run :=
  Shell.run (w.environment.set "PWD" (some cwd.path)) name args script

/-- Runs the shell with arguments. -/
def runShell (w : World) (cwd : Location) (name : String) (args : List String) : Run :=
  match args.dropWhile fun a => a.toList.head? == some '-' && a != "-c" with
  | "-c" :: script :: zeroth :: rest => w.runScript cwd zeroth rest script.toList
  | "-c" :: script :: [] => w.runScript cwd name [] script.toList
  | "-c" :: [] =>
    ⟨[], Text.Utf8.encode (name ++ ": 0: -c requires an argument\n").toList, .exited 2, []⟩
  | file :: rest =>
    match w.disk.read cwd file with
    | .ok bytes => w.runScript cwd file rest (Text.Utf8.decodeLossy bytes)
    | .error _ =>
      ⟨[], Text.Utf8.encode (name ++ ": 0: cannot open " ++ file ++ ": No such file\n").toList,
        .exited 2, []⟩
  | [] => ⟨[], [], .exited 0, []⟩

/-- Runs a program to its end with an empty input. -/
def runImage (w : World) (cwd : Location) (image : Image) (name : String) (args : List String) :
    Run :=
  match image with
  | .interpreter i => if args.head? == some "-m" then ⟨[], [], .exited 0, []⟩ else recite i.recital
  | .script text => w.runScript cwd name args text
  | .tool tool =>
    if shells.contains tool then w.runShell cwd name args
    else
      let s : Shell.State := { name, args := [] }
      (s.perform (.out, .err) 1 tool (args.map String.toList)).outcome

/-- How a program ended and what it printed, as text. -/
def output (r : Run) : Probe.Output where
  success := r.ending = .exited 0
  code := match r.ending with
    | .exited n => some n
    | .killed => none
  stdout := String.ofList (Text.Utf8.decodeLossy r.out)
  stderr := String.ofList (Text.Utf8.decodeLossy r.err)

/-- How long a program ran, in milliseconds: only its pauses take time. -/
def duration (r : Run) : Nat := r.pauses.foldl (fun total p => total + p.2) 0

/-- Runs a program to its end, and says how long that took. -/
def time (w : World) (name : String) (args : List String) : Except IoError (Probe.Output × Nat) :=
  (w.load w.cwd name args).map fun (_, image) =>
    let r := w.runImage w.cwd image name args
    (output r, duration r)

/-- Runs a program to its end. -/
def run (w : World) (name : String) (args : List String) : Except IoError Probe.Output :=
  (w.time name args).map Prod.fst

/-- The answer to a request to run a program. -/
def answer (w : World) (c : Probe.Call) : Probe.Answer :=
  match w.time c.program c.args with
  | .ok (out, delay) => ⟨.ok out, delay⟩
  | .error e => ⟨.error e.message, 0⟩

/-- Verifies a candidate. -/
def verify (w : World) (path : String) (timeout : Nat) (requirements : List Requirement) :
    Verdict × List Probe.Call :=
  Probe.verify path (w.disk.occupied w.cwd path) w.answer timeout requirements

/-- The location of the scripted interpreter that a request runs, if it runs one. -/
def interpreterOf? (w : World) (c : Probe.Call) : Option Location :=
  match w.load w.cwd c.program c.args with
  | .ok (loc, .interpreter _) => some loc
  | _ => none

end World

end Gatekeeper.Machine
