import Gatekeeper.Text.Find

set_option autoImplicit false

/-!
# Command line arguments

What the program is asked to do. Options may stand before and after the name of the task; a value
follows its option as the next argument or behind an equals sign. Arguments are read from left to
right, and the first one that makes no sense, or asks for help, decides.
-/

namespace Gatekeeper.Console

open Text

/-- What the program does. -/
inductive Task
  /-- Runs a server; with `workspace` set, on the interpreter that its settings name. -/
  | run (workspace : Option String)
  | check (interpreter : String)
  | config
  deriving DecidableEq, Repr

/-- What the arguments ask for. -/
inductive Request
  /-- A task, with the configuration file to use if one is named. -/
  | perform (config : Option String) (task : Task)
  | help
  | version
  /-- The arguments make no sense. -/
  | misuse
  deriving DecidableEq, Repr

/-- The shapes of arguments. -/
inductive Shape
  /-- A long option, with its value if that is attached. -/
  | long (name : String) (value : Option String)
  /-- A bundle of short options, of which the first counts. -/
  | short (letter : Char)
  /-- The mark after which there are no options. -/
  | separator
  | plain (value : String)
  deriving DecidableEq, Repr

/-- The shape of an argument. -/
def Shape.of (arg : String) : Shape :=
  match arg.toList with
  | ['-', '-'] => .separator
  | '-' :: '-' :: option =>
    match cutAt? (· == '=') option with
    | some (name, value) => .long (String.ofList name) (some (String.ofList value))
    | none => .long (String.ofList option) none
  | '-' :: letter :: _ => .short letter
  | _ => .plain arg

/-- The value of an option: the attached one, or else the next argument. It may not be empty. The
arguments after it come with it. -/
def value? (attached : Option String) (rest : List String) : Option (String × List String) :=
  match attached, rest with
  | some v, rest => if v == "" then none else some (v, rest)
  | none, next :: rest =>
    match Shape.of next with
    | .plain v => if v == "" then none else some (v, rest)
    | _ => none
  | none, [] => none

/-- Names of the tasks. -/
inductive TaskName
  | run
  | check
  | config
  deriving DecidableEq, Repr

/-- The task with the given name. -/
def TaskName.of? (name : String) : Option TaskName :=
  if name == "run" then some run
  else if name == "check" then some check
  else if name == "config" then some config
  else none

/-- What has been given after the name of a task. -/
structure Given where
  config : Option String := none
  development : Bool := false
  workspace : Option String := none
  interpreter : Option String := none
  deriving DecidableEq, Repr

namespace Given

/-- Takes an argument that is no option. -/
def plain? (g : Given) (task : TaskName) (value : String) : Option Given :=
  if task = .check && g.interpreter.isNone && value != "" then
    some { g with interpreter := some value }
  else none

/-- Takes the value of an option that has one. No option is given twice. -/
def option? (g : Given) (task : TaskName) (name value : String) : Option Given :=
  if name == "config" && g.config.isNone then some { g with config := some value }
  else if name == "workspace" && task = .run && g.workspace.isNone then
    some { g with workspace := some value }
  else none

/-- The request that is complete with these arguments. `outer` is the configuration file that was
named before the task. -/
def finish (g : Given) (outer : Option String) (task : TaskName) : Request :=
  let config := g.config.or outer
  match task, g.interpreter with
  | .run, _ => .perform config (.run (if g.development then some (g.workspace.getD ".") else none))
  | .check, some interpreter => .perform config (.check interpreter)
  | .check, none => .misuse
  | .config, _ => .perform config .config

end Given

/-- Reads the arguments after the name of a task, at most as many as `fuel` says. -/
def readTask (outer : Option String) (task : TaskName) (fuel : Nat) (g : Given)
    (args : List String) : Request :=
  match fuel, args with
  | _, [] => g.finish outer task
  | 0, _ => .misuse
  | fuel + 1, arg :: rest =>
    match Shape.of arg with
    | .separator =>
      match rest.foldl (fun g v => g.bind fun g => g.plain? task v) (some g) with
      | some g => g.finish outer task
      | none => .misuse
    | .plain v =>
      match g.plain? task v with
      | some g => readTask outer task fuel g rest
      | none => .misuse
    | .short letter => if letter == 'h' then .help else .misuse
    | .long name attached =>
      if name == "help" && attached.isNone then .help
      else if name == "dev" && attached.isNone && task = .run && !g.development then
        readTask outer task fuel { g with development := true } rest
      else if name == "config" || name == "workspace" then
        match value? attached rest with
        | some (value, rest) =>
          match g.option? task name value with
          | some g => readTask outer task fuel g rest
          | none => .misuse
        | none => .misuse
      else .misuse

/-- Reads the arguments of a request for help: the name of a task, or of help itself. -/
def readHelp (topics : List String) : Request :=
  match topics with
  | [] => .help
  | [topic] => if topic == "help" || (TaskName.of? topic).isSome then .help else .misuse
  | _ => .misuse

/-- Reads the arguments before the name of a task, at most as many as `fuel` says. -/
def readFrom (config : Option String) (fuel : Nat) (args : List String) : Request :=
  match fuel, args with
  | _, [] => .misuse
  | 0, _ => .misuse
  | fuel + 1, arg :: rest =>
    match Shape.of arg with
    | .separator => .misuse
    | .plain name =>
      match TaskName.of? name with
      | some task => readTask config task rest.length {} rest
      | none => if name == "help" then readHelp rest else .misuse
    | .short letter => if letter == 'h' then .help else if letter == 'V' then .version else .misuse
    | .long name attached =>
      if name == "help" && attached.isNone then .help
      else if name == "version" && attached.isNone then .version
      else if name == "config" && config.isNone then
        match value? attached rest with
        | some (value, rest) => readFrom (some value) fuel rest
        | none => .misuse
      else .misuse

/-- What the arguments of the program ask for. -/
def Request.read (args : List String) : Request := readFrom none args.length args

end Gatekeeper.Console
