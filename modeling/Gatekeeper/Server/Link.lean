import Gatekeeper.Machine.IoError
import Gatekeeper.Server.Uri
import Gatekeeper.Server.Wire

set_option autoImplicit false

/-!
# The link to a running server

A client and a server joined by two pipes. On the client's side a caller makes requests and hands
over documents, a writer takes messages from a queue of limited length and writes them into one
pipe, a reader takes the server's messages from the other pipe, and a clock ends waits that last too
long. Each of them has a function that gives its next step, if it has one; what the server does is
left open. `Link.Step` is the relation between a link and the next.
-/

namespace Gatekeeper.Server

open Machine

/-! ## Parts of a link -/

/-- Why a server could not be started, or a document not be sent. -/
inductive Failure
  | spawn (program : String) (cause : IoError)
  /-- The server refused the handshake. -/
  | refused (reason : String)
  /-- There was no answer in time to the request with the given method. -/
  | timedOut (method : String)
  /-- There can be no answer any more to the request with the given method. -/
  | unanswerable (method : String)
  /-- The writer has ended. -/
  | writerClosed
  /-- The path of a document has no URI. -/
  | noUri (path : String)
  deriving DecidableEq, Repr

/-- The causes of a failure, outermost first. -/
def Failure.causes : Failure → List String
  | spawn program cause => ["spawning " ++ program, cause.message]
  | refused reason => ["initialize failed: " ++ reason]
  | timedOut method => [method ++ " timed out"]
  | unanswerable method => ["server exited before answering " ++ method]
  | writerClosed => ["writer channel closed"]
  | noUri path => ["cannot convert path to file URI: " ++ path]

/-- The wording of a failure. -/
def Failure.message (f : Failure) : String := ": ".intercalate f.causes

/-- What the client tells about itself. -/
structure Client where
  session : Session.Id
  /-- The language of the documents. -/
  language : String := "cfg"
  /-- The number of the client's process. -/
  process : Nat := 0
  /-- The URI of the directory that the server works in. -/
  root : String := "file:///"
  deriving DecidableEq, Repr

/-- The requests that the client makes. -/
inductive Call
  | hello
  | shutdown
  deriving DecidableEq, Repr

/-- The method of a request. -/
def Call.method : Call → String
  | hello => "initialize"
  | shutdown => "shutdown"

/-- How long the answer to a request may take, in milliseconds. -/
def Call.limit : Call → Nat
  | hello => 30000
  | shutdown => 2000

/-- How long the server may take to end once it was told to, in milliseconds. -/
def exitLimit : Nat := 2000

/-- The message that makes a request. -/
def Call.message (c : Client) (id : Nat) : Call → Outgoing
  | hello => .hello id c.process c.root
  | shutdown => .shutdown id

/-- What the caller does. -/
inductive Caller
  /-- Waits for a place in the queue for a request that is registered. -/
  | requesting (call : Call) (id : Nat)
  /-- Waits for the answer to a request. -/
  | awaiting (call : Call) (id : Nat)
  /-- Waits for a place in the queue for the end of the handshake. -/
  | greeting
  /-- Waits for a place in the queue for a document. -/
  | showing (m : Outgoing)
  /-- The server is up; what came of the last document, if there was one. -/
  | idle (sent : Except Failure Unit)
  /-- Waits for a place in the queue for the message that ends the server. -/
  | leaving
  /-- Waits for a place in the queue for the order that ends the writer. -/
  | closing
  /-- Waits for the end of the server. -/
  | reaping
  /-- Waits for the end of the writer. -/
  | joining
  /-- The server has been shut down. -/
  | gone
  /-- The server could not be started. -/
  | failed (f : Failure)

/-- An entry of the queue. -/
inductive Item
  | message (m : Outgoing)
  /-- The order that ends the writer. -/
  | close
  deriving Repr

/-- What the writer does. -/
inductive Writer
  | idle
  /-- Has these bytes still to write. -/
  | writing (rest : List UInt8)
  | ended
  deriving DecidableEq, Repr

/-- What the reader does. -/
inductive Reader
  | listening (d : Frame.Decoder)
  /-- Waits for a place in the queue to refuse a request of the server. -/
  | refusing (id : Json) (method : String)
  | ended
  deriving Repr

/-- A pipe: the bytes in it, and whether its two ends are open. -/
structure Pipe where
  bytes : List UInt8 := []
  writable : Bool := true
  readable : Bool := true
  deriving DecidableEq, Repr

namespace Pipe

/-- The number of bytes that a pipe can hold. -/
def capacity : Nat := 65536

/-- The number of bytes for which there is room. -/
def room (p : Pipe) : Nat := capacity - p.bytes.length

/-- Puts bytes in. -/
def put (p : Pipe) (bytes : List UInt8) : Pipe := { p with bytes := p.bytes ++ bytes }

/-- The writing end is closed. -/
def closeWriting (p : Pipe) : Pipe := { p with writable := false }

/-- The reading end is closed, and what is in the pipe is lost. -/
def closeReading (p : Pipe) : Pipe := { p with bytes := [], readable := false }

end Pipe

/-- What the client keeps about the documents that it was called to show. -/
structure Documents where
  /-- The URIs of the documents that were opened. -/
  opened : List String := []
  /-- The version of each document, by URI. -/
  versions : List (String × Nat) := []
  deriving DecidableEq, Repr

/-- A client and a server joined by two pipes. -/
structure Link where
  client : Client
  caller : Caller
  /-- The id of the next request. -/
  nextId : Nat := 1
  /-- The ids of the requests whose answers are expected. The caller and the reader share them, so a
  request stays registered when the reader ends. -/
  pending : List Nat := []
  /-- The answer that the caller has not taken yet. -/
  answer : Option Json := none
  documents : Documents := {}
  queue : List Item := []
  writer : Writer := .idle
  reader : Reader := .listening .start
  /-- The pipe into the server. -/
  input : Pipe := {}
  /-- The pipe out of the server. -/
  output : Pipe := {}
  /-- Whether the server's process runs. -/
  alive : Bool := true
  /-- The events for the host, in order. -/
  events : List Event := []

namespace Link

/-- The number of entries that the queue can hold. -/
def queueCapacity : Nat := 64

/-- What comes of an attempt to put something into the queue. -/
inductive Offer
  | full
  | closed
  | taken (l : Link)

/-- Puts an entry into the queue, which is closed when the writer has ended. -/
def offer (l : Link) (i : Item) : Offer :=
  if l.writer = .ended then .closed
  else if l.queue.length < queueCapacity then .taken { l with queue := l.queue ++ [i] }
  else .full

/-- The server's process ends. Both its ends of the pipes are closed. -/
def killed (l : Link) : Link :=
  { l with alive := false, input := l.input.closeReading, output := l.output.closeWriting }

/-! ## The caller -/

/-- Registers a request that is to be made. -/
def request (l : Link) (call : Call) : Link :=
  { l with
    caller := .requesting call l.nextId, nextId := l.nextId + 1, pending := l.nextId :: l.pending }

/-- The link to a server that has just been started. The client begins with the handshake. -/
def start (c : Client) : Link :=
  request { client := c, caller := .idle (.ok ()) } .hello

/-- The version of a document that was shown. -/
def version? (l : Link) (uri : String) : Option Nat := l.documents.versions.lookup uri

/-- Notes the version of a document. -/
def setVersion (l : Link) (uri : String) (version : Nat) : Link :=
  { l with
    documents.versions := (uri, version) :: l.documents.versions.filter (·.1 != uri) }

/-- Notes that a document was opened. -/
def setOpened (l : Link) (uri : String) : Link :=
  { l with documents.opened := uri :: l.documents.opened }

/-- Begins to show a document: it is opened the first time, and changed to the next version after
that. -/
def openDocument (l : Link) (path text : String) : Link :=
  match Uri.ofPath? path with
  | none => { l with caller := .idle (.error (.noUri path)) }
  | some uri =>
    if uri ∈ l.documents.opened then
      let version := (l.version? uri).getD 1 + 1
      { l.setVersion uri version with caller := .showing (.changed uri version text) }
    else
      { (l.setVersion uri 1).setOpened uri with
        caller := .showing (.opened uri l.client.language 1 text) }

/-- The caller gives up the server before it was up. -/
def abandon (l : Link) (f : Failure) : Link := { l.killed with caller := .failed f }

/-- The end of a wait without an answer: the request is no longer registered. -/
def giveUp (l : Link) (call : Call) (id : Nat) (f : Failure) : Link :=
  let l := { l with pending := l.pending.erase id }
  match call with
  | .hello => l.abandon f
  | .shutdown => { l with caller := .closing }

/-- Goes on with the answer to a request. -/
def answered (l : Link) (call : Call) (body : Json) : Link :=
  let l := { l with answer := none }
  match call, refusalReason? body with
  | .hello, some reason => l.abandon (.refused reason)
  | .hello, none => { l with caller := .greeting }
  | .shutdown, some _ => { l with caller := .closing }
  | .shutdown, none => { l with caller := .leaving }

/-- The next step of the caller. A request that is not registered any more has been answered, or has
lost its answer: then there is nothing to wait for. -/
def caller? (l : Link) : Option Link :=
  match l.caller with
  | .requesting call id =>
    match l.offer (.message (call.message l.client id)) with
    | .full => none
    | .closed => some (l.giveUp call id .writerClosed)
    | .taken l => some { l with caller := .awaiting call id }
  | .awaiting call id =>
    match l.answer with
    | some body => some (l.answered call body)
    | none =>
      if l.pending.contains id then none else some (l.giveUp call id (.unanswerable call.method))
  | .greeting =>
    match l.offer (.message .initialized) with
    | .full => none
    | .closed => some (l.abandon .writerClosed)
    | .taken l => some { l with caller := .idle (.ok ()) }
  | .showing m =>
    match l.offer (.message m) with
    | .full => none
    | .closed => some { l with caller := .idle (.error .writerClosed) }
    | .taken l => some { l with caller := .idle (.ok ()) }
  | .leaving =>
    match l.offer (.message .exit) with
    | .full => none
    | .closed => some { l with caller := .closing }
    | .taken l => some { l with caller := .closing }
  | .closing =>
    match l.offer .close with
    | .full => none
    | .closed => some { l with caller := .reaping }
    | .taken l => some { l with caller := .reaping }
  | .reaping => if l.alive then none else some { l with caller := .joining }
  | .joining =>
    if l.writer = .ended then
      some { l with caller := .gone, reader := .ended, output := l.output.closeReading }
    else none
  | .idle _ => none
  | .gone => none
  | .failed _ => none

/-- How long the wait of the caller may last, in milliseconds. Only the waits for the server have a
limit. -/
def limit? (l : Link) : Option Nat :=
  match l.caller with
  | .awaiting call _ => some call.limit
  | .reaping => some exitLimit
  | _ => none

/-- What the clock does when a wait of the caller has lasted too long. -/
def clock? (l : Link) : Option Link :=
  match l.caller, l.answer with
  | .awaiting call id, none =>
    if l.pending.contains id then some (l.giveUp call id (.timedOut call.method)) else none
  | .reaping, _ => if l.alive then some { l.killed with caller := .joining } else none
  | _, _ => none

/-! ## The writer -/

/-- Whether nobody can put anything into the queue any more. -/
def isDeserted (l : Link) : Bool :=
  match l.caller, l.reader with
  | .gone, .ended => true
  | .failed _, .ended => true
  | _, _ => false

/-- The writer ends. What is in the queue is lost. -/
def endWriter (l : Link) : Link :=
  { l with writer := .ended, queue := [], input := l.input.closeWriting }

/-- The next step of the writer. -/
def writer? (l : Link) : Option Link :=
  match l.writer with
  | .idle =>
    match l.queue with
    | .message m :: queue => some { l with queue, writer := .writing m.bytes }
    | .close :: _ => some l.endWriter
    | [] => if l.isDeserted then some l.endWriter else none
  | .writing rest =>
    if rest.isEmpty then some { l with writer := .idle }
    else if !l.input.readable then some l.endWriter
    else if l.input.room = 0 then none
    else
      some { l with
        writer := .writing (rest.drop l.input.room), input := l.input.put (rest.take l.input.room) }
  | .ended => none

/-! ## The reader -/

/-- Tells the host. -/
def emit (l : Link) (e : Event) : Link := { l with events := l.events ++ [e] }

/-- Takes notice of a JSON value from the server. -/
def hear (l : Link) (v : Json) : Link :=
  match Incoming.ofJson? v with
  | some (.response id body) =>
    if l.pending.contains id then { l with pending := l.pending.erase id, answer := some body }
    else l
  | some (.request id method) => { l with reader := .refusing id method }
  | some (.message true kind text) => l.emit (.show l.client.session kind text)
  | some (.message false kind text) => l.emit (.log l.client.session kind text)
  | none => l

/-- The reader ends, and the host learns why. -/
def endReader (l : Link) (reason : StopReason) : Link :=
  { l.emit (.stopped l.client.session reason) with
    reader := .ended, output := l.output.closeReading }

/-- Takes notice of what was read last; `rest` is what is left in the pipe. -/
def report (l : Link) (o : Frame.Outcome) (rest : List UInt8) : Link :=
  let l := { l with output := { l.output with bytes := rest }, reader := .listening .start }
  match o with
  | .value v => l.hear v
  | .fault f => l.endReader (.failed f)

/-- The next step of the reader. -/
def reader? (l : Link) : Option Link :=
  match l.reader with
  | .listening d =>
    match d.pull l.output.bytes with
    | .inl (o, rest) => some (l.report o rest)
    | .inr d' =>
      if !l.output.bytes.isEmpty then
        some { l with output := { l.output with bytes := [] }, reader := .listening d' }
      else if l.output.writable then none
      else
        match d.finish with
        | none => some (l.endReader .exited)
        | some o => some (l.report o [])
  | .refusing id method =>
    match l.offer (.message (.refusal id method)) with
    | .full => none
    | .closed => some { l with reader := .listening .start }
    | .taken l => some { l with reader := .listening .start }
  | .ended => none

/-! ## The server -/

/-- What a server can do. -/
inductive Move
  /-- Takes bytes from its input. -/
  | take (count : Nat)
  /-- Puts bytes into its output. -/
  | put (bytes : List UInt8)
  | closeInput
  | closeOutput
  | exit
  deriving DecidableEq, Repr

/-- The link after a move of the server, if the move is possible. -/
def move? (l : Link) (m : Move) : Option Link :=
  if !l.alive then none
  else
    match m with
    | .take count => some { l with input := { l.input with bytes := l.input.bytes.drop count } }
    | .put bytes =>
      if l.output.readable && l.output.writable && bytes.length ≤ l.output.room then
        some { l with output := l.output.put bytes }
      else none
    | .closeInput => some { l with input := l.input.closeReading }
    | .closeOutput => some { l with output := l.output.closeWriting }
    | .exit => some l.killed

/-! ## All together -/

/-- Whether the caller does not wait for anything. -/
def isResting (l : Link) : Bool :=
  match l.caller with
  | .idle _ => true
  | .gone => true
  | .failed _ => true
  | _ => false

/-- What can happen next. A new call begins only when the server is up and no other one is made. -/
inductive Step : Link → Link → Prop
  | caller {l l' : Link} (h : l.caller? = some l') : Step l l'
  | clock {l l' : Link} (h : l.clock? = some l') : Step l l'
  | writer {l l' : Link} (h : l.writer? = some l') : Step l l'
  | reader {l l' : Link} (h : l.reader? = some l') : Step l l'
  | server {l l' : Link} (m : Move) (h : l.move? m = some l') : Step l l'
  | openDocument {l : Link} (sent : Except Failure Unit) (h : l.caller = .idle sent)
      (path text : String) : Step l (l.openDocument path text)
  | shutdown {l : Link} (sent : Except Failure Unit) (h : l.caller = .idle sent) :
      Step l (l.request .shutdown)

end Link

end Gatekeeper.Server
