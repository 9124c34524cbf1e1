import Gatekeeper.Config.Store
import Gatekeeper.Console.Command
import Gatekeeper.Session.Live

set_option autoImplicit false

/-!
# The interactive session

One controller, driven by typed lines. Everything that happens is printed in the order in which it
happens: changes of the status, events of the controller, and messages of the server. When a server
stops by itself, the controller is told. An interpreter that gets bound is recorded in the
configuration file.
-/

namespace Gatekeeper.Console

open Machine Session

/-! ## What happens -/

/-- Something that happens while the controller works. -/
inductive Entry
  | status (s : Status)
  | event (e : Session.Event)
  | server (e : Server.Event)
  deriving Repr

/-- The parts of a controller, and what has happened since it was looked at last, in order. -/
structure Desk where
  live : Live
  journal : List Entry := []

namespace Desk

/-- Moves the events of the servers into the journal. -/
def collect (d : Desk) : Desk :=
  { live := { d.live with fleet := { d.live.fleet with inbox := [] } },
    journal := d.journal ++ d.live.fleet.inbox.map Entry.server }

/-- Goes on in the background. -/
def settle (d : Desk) : Desk :=
  { d with live := { d.live with fleet := d.live.fleet.settle } }.collect

/-- Takes note of something. -/
def note (d : Desk) (e : Entry) : Desk := { d with journal := d.journal ++ [e] }

/-- The parts of a controller, with the journal kept. -/
def parts : Parts Desk where
  surroundings d := d.live.surroundings
  note d
    | .publish s => d.note (.status s)
    | .emit e => d.note (.event e)
  answer d _ stage :=
    let (a, live) := d.live.answer stage
    (a, { d with live }.collect)

end Desk

/-! ## What is printed -/

/-- The lines for an event of the controller. -/
def eventLines : Session.Event → List String
  | .notice m none => [m.display]
  | .notice m (some detail) => [m.display ++ " (" ++ detail ++ ")"]
  | .bound _ => []
  | .incompatible interpreter verdict =>
    [interpreter ++ ": " ++ verdict.display, incompatibleText]
  | .keptPrevious rejected none => ["Not switching to " ++ rejected]
  | .keptPrevious rejected (some current) =>
    ["Not switching to " ++ rejected ++ "; still using " ++ current]
  | .changeIgnored interpreter =>
    ["Ignoring " ++ interpreter ++ ": the configured default interpreter is pinned"]

/-- The name under which messages of a kind are printed. -/
def speaker : Server.MessageKind → String
  | .error => "server error"
  | .warning => "server warning"
  | .info => "server"
  | .log => "server"

/-- The lines for an event of a server. What is for the log is not printed. -/
def serverLines : Server.Event → List String
  | .show _ kind message => ["[" ++ speaker kind ++ "] " ++ message]
  | .log _ _ _ => []
  | .stopped _ _ => []

/-- The line for a status. -/
def statusLine (s : Status) : String := s.indicator ++ " [" ++ s.phase.label ++ "]"

/-- The lines for the result of an operation. What events have told already is not told again. -/
def resultLines : Result → List String
  | .failed (.launch causes) => [(Error.launch causes).message]
  | _ => []

/-! ## The session -/

/-- An interactive session. -/
structure Terminal where
  running : Running Desk
  settings : Settings
  /-- The file in which interpreters are recorded. -/
  configPath : Option String

namespace Terminal

/-- Something that is done in a session: the lines that are printed, and the session after it. -/
abbrev Act := Terminal → List String × Terminal

/-- Changes what the controller works with. -/
def onDesk (t : Terminal) (f : Desk → Desk) : Terminal :=
  { t with running := { t.running with parts := f t.running.parts } }

/-- The disk of the machine. -/
def disk (t : Terminal) : Machine.Disk := t.running.parts.live.fleet.world.disk

/-- The working directory. -/
def cwd (t : Terminal) : Location := t.running.parts.live.fleet.world.cwd

/-- The session on another disk. -/
def onDisk (t : Terminal) (disk : Machine.Disk) : Terminal :=
  t.onDesk fun d =>
    { d with live := { d.live with fleet := { d.live.fleet with
      world := { d.live.fleet.world with disk } } } }

/-- Records an interpreter in the configuration file. -/
def record (interpreter : String) : Act := fun t =>
  let trouble := "Could not save interpreter to config: "
  match t.configPath with
  | none => ([trouble ++ "could not determine home directory for config"], t)
  | some path =>
    let (disk, error) := Config.persist t.disk t.cwd path interpreter
    ((error.map fun e => trouble ++ e.message).toList, t.onDisk disk)

/-- Prints an entry of the journal; `attentive` says whether more than the controller's events is
printed. -/
def print (attentive : Bool) (e : Entry) : Act := fun t =>
  match e with
  | .status s => (if attentive then [statusLine s] else [], t)
  | .event (.bound interpreter) => record interpreter t
  | .event e => (eventLines e, t)
  | .server e => (if attentive then serverLines e else [], t)

/-- Does several things in order. -/
def doAll (acts : List Act) : Act := fun t =>
  acts.foldl (fun (lines, t) act =>
    let (more, t) := act t
    (lines ++ more, t)) ([], t)

/-- The sessions that ended, as a journal tells. -/
def stops (journal : List Entry) : List Id :=
  journal.filterMap fun
    | .server (.stopped session _) => some session
    | _ => none

/-- Prints the journal and begins a new one. -/
def printJournal (attentive : Bool) : Act := fun t =>
  let journal := t.running.parts.journal
  doAll (journal.map (print attentive)) (t.onDesk fun d => { d with journal := [] })

/-- An operation that has been run: its result, the sessions whose servers stopped meanwhile, what
was printed, and the session after it. -/
structure Performance where
  result : Result
  stopped : List Id
  lines : List String
  terminal : Terminal

/-- Runs an operation and prints what happens. -/
def perform (attentive : Bool) (o : Operation) (t : Terminal) : Performance :=
  let (running, result) := t.running.run Desk.parts t.settings o
  let (lines, terminal) := printJournal attentive { t with running }
  { result, stopped := stops running.parts.journal, lines, terminal }

/-- Tells the controller about servers that stopped. -/
def tell (stopped : List Id) : Act :=
  doAll (stopped.map fun session => fun t =>
    let p := t.perform true (.exited session)
    (p.lines, p.terminal))

/-- Runs an operation, prints what happens and what comes of it, and tells the controller about
servers that stopped meanwhile. -/
def attend (o : Operation) : Act := fun t =>
  let p := t.perform true o
  let (more, t) := tell p.stopped p.terminal
  (p.lines ++ resultLines p.result ++ more, t)

/-- Lets the background go on, and tells the controller about servers that stopped. -/
def idle : Act := fun t =>
  let t := t.onDesk Desk.settle
  doAll [printJournal true, tell (stops t.running.parts.journal)] t

/-- Shows a file to the server. -/
def openFile (path : String) : Act := fun t =>
  match Path.absolute? t.cwd.path path with
  | none => (["Cannot resolve " ++ path ++ ": cannot make an empty path absolute"], t)
  | some path =>
    match t.disk.readText t.cwd path with
    | .error e => (["Cannot read " ++ path ++ ": " ++ e.message], t)
    | .ok text =>
      let p := t.perform true (.openDocument path text)
      let refused := "Not sent: " ++ path ++ " (server not running or not a config document)"
      match p.result with
      | .value true => (p.lines, p.terminal)
      | _ => (p.lines ++ [refused], p.terminal)

/-- Begins a session: the commands are listed and the controller is activated. Where the host cannot
tell of interpreters there is no session. -/
def activate (t : Terminal) : List String × Except Error Terminal :=
  let p := t.perform true .activate
  let lines := Command.helpText :: p.lines
  match p.result with
  | .failed .hostUnavailable => (lines, .error .hostUnavailable)
  | result =>
    let (more, t) := doAll [tell p.stopped, idle] p.terminal
    (lines ++ resultLines result ++ more, .ok t)

/-- Ends the session: the server is shut down. -/
def close : Act := fun t =>
  let p := t.perform false .deactivate
  (p.lines, p.terminal)

/-- Obeys a command other than the one that ends the session. -/
def obey (c : Command) : Act :=
  match c with
  | .status => fun t => ([statusLine t.running.controller.published], t)
  | .interpreter => fun t => ([t.running.controller.published.interpreter.getD
      "no interpreter bound"], t)
  | .restart => doAll [attend .restart, idle]
  | .stop => doAll [attend .stop, idle]
  | .use path => doAll [attend (.select path), idle]
  | .open path => doAll [openFile path, idle]
  | .help => fun t => ([Command.helpText], t)
  | .quit => fun t => ([], t)

end Terminal

end Gatekeeper.Console
