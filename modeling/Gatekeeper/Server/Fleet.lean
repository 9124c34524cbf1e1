import Gatekeeper.Machine.World
import Gatekeeper.Server.Exchange
import Gatekeeper.Server.LaunchSpec

set_option autoImplicit false

/-!
# The servers of a machine

The servers that were launched on a machine, each with the link to it, and the events that they sent
and nobody has taken yet.
-/

namespace Gatekeeper.Server

open Machine

/-- A server that was launched. -/
structure Launch where
  session : Session.Id
  /-- The program that was run. -/
  program : Location
  args : List String
  cwd : Location
  exchange : Exchange

/-- A machine with the servers that were launched on it. -/
structure Fleet where
  world : World
  /-- The probes of scripted interpreters with their arguments, latest first. -/
  probes : List (Location × List String) := []
  /-- The servers, latest first. -/
  launches : List Launch := []
  /-- The events that nobody has taken, in order. -/
  inbox : List Event := []

namespace Fleet

/-- The directory in which a server is to run. -/
def workingDirectory (w : World) (root : String) : Except IoError Location :=
  if root.toList.contains '\x00' then .error .nulInArgument
  else
    (w.disk.find w.cwd root true).bind fun
      | .entry loc (.dir _) => .ok loc
      | .entry _ _ => .error .notDirectory
      | .vacant _ => .error .noEntry

/-- What a program does that does not read its input: it prints `out`, of which so many bytes are
printed already, makes its pauses in between, and exits. -/
def monologue (printed : Nat) (out : List UInt8) : List (Nat × Nat) → List Action
  | [] => [.write out, .exit]
  | (position, length) :: pauses =>
    let n := position - printed
    .write (out.take n) :: .pause length :: monologue position (out.drop n) pauses

/-- How a program plays its part as a server: a scripted interpreter by its cues, another program by
what it prints. -/
def part (f : Fleet) (loc cwd : Location) (image : Image) (name : String) (args : List String) :
    Cues × List Action :=
  match image with
  | .interpreter i => (i.cues (f.launches.filter (·.program = loc)).length, [])
  | _ =>
    let r := f.world.runImage cwd image name args
    ([], monologue 0 r.out r.pauses)

/-- Takes over the events of an exchange. -/
def collect (f : Fleet) (x : Exchange) : Exchange × Fleet :=
  let (events, x) := x.takeEvents
  (x, { f with inbox := f.inbox ++ events })

/-- Lets something happen to all servers. -/
def each (f : Fleet) (act : Exchange → Exchange) : Fleet :=
  let (launches, f) := f.launches.foldr (fun l (done, f) =>
    let (exchange, f) := f.collect (act l.exchange)
    ({ l with exchange } :: done, f)) (([] : List Launch), f)
  { f with launches }

/-- Goes on in the background with all servers. -/
def settle (f : Fleet) : Fleet := f.each (·.settle Exchange.patience)

/-- Goes on in the background with all servers until `done` holds, through their pauses if need
be. -/
def await (f : Fleet) (done : Fleet → Bool) : Fleet :=
  let f := if done f then f else f.settle
  if done f then f else f.each (·.outlast Exchange.patience)

/-- The process of a client on this machine, for the server of a session. -/
def client (w : World) (spec : LaunchSpec) (process : Nat) (session : Session.Id) : Client where
  session := session
  language := spec.languageId
  process := process
  root := ((Path.absolute? w.cwd.path spec.root).bind Uri.ofPath?).getD ""

/-- Launches the server of a session. -/
def launch (f : Fleet) (spec : LaunchSpec) (process : Nat) (session : Session.Id)
    (interpreter : String) : Except Failure Unit × Fleet :=
  let f := f.settle
  let args := spec.args
  let ready := (workingDirectory f.world spec.root).bind fun cwd =>
    (f.world.load cwd interpreter args).map (Prod.mk cwd)
  match ready with
  | .error e => (.error (.spawn interpreter e), f)
  | .ok (cwd, program, image) =>
    let (cues, agenda) := f.part program cwd image interpreter args
    let x := Exchange.start (client f.world spec process session) cues agenda
    let result := match x.startFailure? with
      | some e => .error e
      | none => .ok ()
    let (exchange, f) := f.collect x
    (result, { f with launches := ⟨session, program, args, cwd, exchange⟩ :: f.launches })

/-- Does something with the server of a session. The first result counts. -/
def withServer {α : Type} (f : Fleet) (session : Session.Id) (default : α)
    (act : Exchange → α × Exchange) : α × Fleet :=
  let step := fun (l : Launch) (acc : List Launch × Option α × Fleet) =>
    if l.session = session then
      let (a, x) := act l.exchange
      let (exchange, f) := acc.2.2.collect x
      ({ l with exchange } :: acc.1, some a, f)
    else (l :: acc.1, acc.2)
  let (launches, a, f) := f.launches.foldr step ([], none, f)
  (a.getD default, { f with launches })

/-- Shows a document to the server of a session. -/
def openDocument (f : Fleet) (session : Session.Id) (path text : String) :
    Except Failure Unit × Fleet :=
  f.withServer session (.ok ()) fun x =>
    let x := x.openDocument path text
    (x.sent, x)

/-- Shuts the server of a session down. -/
def shutdown (f : Fleet) (session : Session.Id) : Fleet :=
  (f.withServer session () fun x => ((), x.shutdown)).2.settle

/-- Verifies a candidate. -/
def verify (f : Fleet) (path : String) (timeout : Nat) (requirements : List Requirement) :
    Verdict × Fleet :=
  let f := f.settle
  let (v, calls) := f.world.verify path timeout requirements
  let probes := calls.filterMap fun c => (f.world.interpreterOf? c).map fun loc => (loc, c.args)
  (v, { f with probes := probes.reverse ++ f.probes })

/-- Whether an event is a message. -/
def isMessage : Event → Bool
  | .stopped _ _ => false
  | _ => true

/-- Takes the first so many messages. -/
def takeMessages (f : Fleet) (count : Nat) : List Event × Fleet :=
  let f := f.await fun f => count ≤ (f.inbox.filter isMessage).length
  let go := fun (acc : List Event × List Event) (e : Event) =>
    if isMessage e && acc.1.length < count then (e :: acc.1, acc.2) else (acc.1, e :: acc.2)
  let (taken, left) := f.inbox.foldl go ([], [])
  (taken.reverse, { f with inbox := left.reverse })

/-- Takes the event that the server of a session has stopped. -/
def takeStop (f : Fleet) (session : Session.Id) : List Event × Fleet :=
  let isStop := fun (e : Event) => !isMessage e && e.session = session
  let f := f.await fun f => f.inbox.any isStop
  (f.inbox.filter isStop, { f with inbox := f.inbox.filter fun e => !isStop e })

end Fleet

end Gatekeeper.Server
