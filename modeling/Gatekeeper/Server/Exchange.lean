import Gatekeeper.Machine.Interpreter
import Gatekeeper.Server.Link

set_option autoImplicit false

/-!
# A link to a scripted server

The server's side of a link is played by an actor with cues. The steps of both sides are taken in a
fixed order: the actor goes first, then the reader and the writer, until none of them can go on;
then the caller. Time passes only when everything else waits: up to the end of the caller's wait, or
of a pause of the actor if that comes first.
-/

namespace Gatekeeper.Server

open Machine

/-- A scripted server that runs. -/
structure Actor where
  cues : Cues
  /-- What it is about to do. -/
  agenda : List Action := []
  decoder : Frame.Decoder := .start
  /-- The bytes that it has taken and not read. -/
  unread : List UInt8 := []
  /-- The messages that it has read, latest first. -/
  heard : List Json := []
  hangs : Bool := false

/-- The answer to a message. -/
def Actor.answer (message : Json) (members : List (String × Json)) : Json :=
  .ofMembers
    (("jsonrpc", .string "2.0") :: ("id", (message.get? "id").getD .null) :: members)

/-- An action as it is done at a message: answers become messages of their own. -/
def Actor.cued (message : Json) : Action → Action
  | .reply members => .send (answer message members)
  | a => a

/-- A link with an actor at the server's side. -/
structure Exchange where
  link : Link
  actor : Actor
  /-- How long the caller has been waiting, in milliseconds. -/
  waited : Nat := 0

namespace Exchange

/-- The same exchange with another agenda of the actor. -/
def setAgenda (x : Exchange) (agenda : List Action) : Exchange :=
  { x with actor := { x.actor with agenda } }

/-- The actor writes. What nobody can read is lost; what finds no room is written later. -/
def write? (x : Exchange) (bytes : List UInt8) (rest : List Action) : Option Exchange :=
  if !(x.link.output.readable && x.link.output.writable) || bytes.isEmpty then
    some (x.setAgenda rest)
  else
    let n := x.link.output.room
    if n = 0 then none
    else
      (x.link.move? (.put (bytes.take n))).map fun link =>
        { x with link, actor := { x.actor with agenda := .write (bytes.drop n) :: rest } }

/-- The actor does what is next on its agenda. -/
def perform? (x : Exchange) (a : Action) (rest : List Action) : Option Exchange :=
  let actor := { x.actor with agenda := rest }
  match a with
  | .reply _ => some { x with actor }
  | .send v => x.write? (Frame.encode v) rest
  | .write bytes => x.write? bytes rest
  | .pause _ => none
  | .exit => (x.link.move? .exit).map fun link => { x with link, actor }
  | .closeOutput => (x.link.move? .closeOutput).map fun link => { x with link, actor }
  | .hang => some { x with actor := { actor with hangs := true, agenda := [] } }

/-- The actor reads. At the end of its input it exits. -/
def read? (x : Exchange) : Option Exchange :=
  match x.actor.decoder.pull x.actor.unread with
  | .inl (.value v, unread) =>
    let agenda := (x.actor.cues.actions v).map (Actor.cued v)
    some { x with
      actor := { x.actor with decoder := .start, unread, heard := v :: x.actor.heard, agenda } }
  | .inl (.fault _, unread) =>
    some { x with actor := { x.actor with decoder := .start, unread, agenda := [.exit] } }
  | .inr decoder =>
    let actor := { x.actor with decoder, unread := x.link.input.bytes }
    if !x.link.input.bytes.isEmpty then
      (x.link.move? (.take x.link.input.bytes.length)).map fun link => { x with link, actor }
    else if x.link.input.writable then none
    else (x.link.move? .exit).map fun link => { x with link, actor }

/-- The next step of the actor. -/
def actor? (x : Exchange) : Option Exchange :=
  if !x.link.alive || x.actor.hangs then none
  else
    match x.actor.agenda with
    | a :: rest => x.perform? a rest
    | [] => x.read?

/-- The next step of anyone but the caller and the clock. -/
def background? (x : Exchange) : Option Exchange :=
  x.actor? <|> (x.link.reader?.map fun link => { x with link })
    <|> (x.link.writer?.map fun link => { x with link })

/-- Goes on in the background until nothing is left to do there, for at most `fuel` steps. -/
def settle (fuel : Nat) (x : Exchange) : Exchange :=
  match fuel with
  | 0 => x
  | fuel + 1 =>
    match x.background? with
    | some x => settle fuel x
    | none => x

/-- The number of steps for which an exchange may go on. -/
def patience : Nat := 100000

/-- The pause that the actor makes: how long it still is, and what comes after it. -/
def pause? (x : Exchange) : Option (Nat × List Action) :=
  if !x.link.alive || x.actor.hangs then none
  else
    match x.actor.agenda with
    | .pause length :: rest => some (length, rest)
    | _ => none

/-- Goes on in the background, and through the pauses of the actor, at most `fuel` of them. -/
def outlast (fuel : Nat) (x : Exchange) : Exchange :=
  let x := x.settle patience
  match fuel, x.pause? with
  | fuel + 1, some (_, rest) => outlast fuel (x.setAgenda rest)
  | _, _ => x

/-- Lets time pass: up to the end of the caller's wait, if it has a limit, or to the end of the
actor's pause if that comes first. -/
def pass? (x : Exchange) : Option Exchange :=
  match x.link.clock?, x.pause? with
  | none, none => none
  | none, some (_, rest) => some (x.setAgenda rest)
  | some link, none => some { x with link, waited := 0 }
  | some link, some (length, rest) =>
    let left := x.link.limit?.getD 0 - x.waited
    if length < left then some { x.setAgenda rest with waited := x.waited + length }
    else some { x.setAgenda (.pause (length - left) :: rest) with link, waited := 0 }

/-- The next step of the caller. If it waits, the background goes on first; if it then still waits,
time passes. -/
def foreground? (x : Exchange) : Option Exchange :=
  match x.link.caller? with
  | some link => some { x with link, waited := 0 }
  | none =>
    let x := x.settle patience
    match x.link.caller? with
    | some link => some { x with link, waited := 0 }
    | none => x.pass?

/-- Goes on until the caller waits for nothing more, for at most `fuel` of its steps. -/
def drive (fuel : Nat) (x : Exchange) : Exchange :=
  match fuel with
  | 0 => x
  | fuel + 1 =>
    if x.link.isResting then x
    else
      match x.foreground? with
      | some x => drive fuel x
      | none => x

/-- The number of steps and waits that a call takes at most. -/
def callSteps : Nat := 1000

/-- Starts a client with a scripted server. -/
def start (c : Client) (cues : Cues) (agenda : List Action) : Exchange :=
  drive callSteps { link := .start c, actor := { cues, agenda } }

/-- Shows a document to the server. -/
def openDocument (x : Exchange) (path text : String) : Exchange :=
  drive callSteps { x with link := x.link.openDocument path text }

/-- Shuts the server down. -/
def shutdown (x : Exchange) : Exchange :=
  drive callSteps { x with link := x.link.request .shutdown }

/-- The failure of the start, if it failed. -/
def startFailure? (x : Exchange) : Option Failure :=
  match x.link.caller with
  | .failed f => some f
  | _ => none

/-- What came of the last document. -/
def sent (x : Exchange) : Except Failure Unit :=
  match x.link.caller with
  | .idle r => r
  | _ => .ok ()

/-- The events that have come since they were taken last. -/
def takeEvents (x : Exchange) : List Event × Exchange :=
  (x.link.events, { x with link := { x.link with events := [] } })

end Exchange

end Gatekeeper.Server
