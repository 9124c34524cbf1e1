import Gatekeeper.Server.Link
import Mathlib.Data.List.Basic
import Mathlib.Logic.Relation

set_option autoImplicit false

/-!
# Courses of a link

A **course** is the record of a run of a link: what was put into the queue, what the writer took and
wrote, what the reader read, and what the client was called for. `Link.Does` says for each party,
and for each way it can go on, what is recorded and what becomes of the link; `Link.step_iff_does`
shows that these are the steps of a link, no more and no fewer.

The views of a history (`queued`, `frames`, `written`, `supplied`, `values`, `documents`) read the
record only, not the state of the link.
-/

namespace Gatekeeper.Server

/-! ## Records -/

/-- Something that happens on a link. -/
inductive Deed
  /-- An entry is put into the queue: a refusal by the reader, anything else by the caller. -/
  | puts (i : Item)
  /-- The caller takes the answer to a request. -/
  | learns (call : Call) (id : Nat) (body : Json)
  /-- The caller goes on without an answer to a request. -/
  | lapses (call : Call) (id : Nat) (f : Failure)
  /-- The writer takes a message, to write its frame. -/
  | takes (m : Outgoing)
  /-- The writer puts bytes into the pipe. -/
  | writes (bytes : List UInt8)
  /-- The reader has read a value, or a fault. -/
  | reads (o : Frame.Outcome)
  | server (m : Link.Move)
  /-- The client is called to show a document. -/
  | opens (path text : String)
  /-- The client is called to shut the server down. -/
  | shutsDown
  /-- Someone goes on, with nothing to record. -/
  | passes

namespace Deed

/-- The message that is put into the queue. -/
def queued : Deed → List Outgoing
  | puts (.message m) => [m]
  | _ => []

/-- The message whose frame is begun. -/
def frames : Deed → List Outgoing
  | takes m => [m]
  | _ => []

def written : Deed → List UInt8
  | writes bytes => bytes
  | _ => []

/-- The bytes that the server puts into its output. -/
def supplied : Deed → List UInt8
  | server (.put bytes) => bytes
  | _ => []

/-- The value that is read. -/
def values : Deed → List Json
  | reads (.value v) => [v]
  | _ => []

/-- The path and the text of the document that is to be shown. -/
def documents : Deed → List (String × String)
  | opens path text => [(path, text)]
  | _ => []

/-- Whether the server is to be shut down. -/
def isShutDown : Deed → Bool
  | shutsDown => true
  | _ => false

/-- Whether the client is called. -/
def isCall : Deed → Bool
  | opens _ _ => true
  | shutsDown => true
  | _ => false

end Deed

/-- What happened, in order. -/
abbrev History := List Deed

namespace History

variable (h : History)

/-- The messages that were put into the queue, by the caller and by the reader. -/
def queued : List Outgoing := h.flatMap Deed.queued

/-- The messages whose frames the writer has begun to write. -/
def frames : List Outgoing := h.flatMap Deed.frames

/-- The bytes that the writer has put into the pipe. -/
def written : List UInt8 := h.flatMap Deed.written

/-- The bytes that the server has put into its output. -/
def supplied : List UInt8 := h.flatMap Deed.supplied

/-- The values that the reader has read. -/
def values : List Json := h.flatMap Deed.values

/-- The documents that the client was called to show. -/
def documents : List (String × String) := h.flatMap Deed.documents

/-- Whether the client was called to shut the server down. -/
def isShutDown : Bool := h.any Deed.isShutDown

/-- The client was not called for anything. -/
def IsUncalled : Prop := ∀ d ∈ h, d.isCall = false

variable (d : Deed) (k : History)

theorem queued_append : queued (h ++ k) = h.queued ++ k.queued := List.flatMap_append

theorem frames_append : frames (h ++ k) = h.frames ++ k.frames := List.flatMap_append

theorem documents_append : documents (h ++ k) = h.documents ++ k.documents :=
  List.flatMap_append

@[simp] theorem queued_snoc : queued (h ++ [d]) = h.queued ++ d.queued := by simp [queued]

@[simp] theorem frames_snoc : frames (h ++ [d]) = h.frames ++ d.frames := by simp [frames]

@[simp] theorem written_snoc : written (h ++ [d]) = h.written ++ d.written := by simp [written]

@[simp] theorem supplied_snoc : supplied (h ++ [d]) = h.supplied ++ d.supplied := by
  simp [supplied]

@[simp] theorem values_snoc : values (h ++ [d]) = h.values ++ d.values := by simp [values]

@[simp] theorem documents_snoc : documents (h ++ [d]) = h.documents ++ d.documents := by
  simp [documents]

@[simp] theorem isShutDown_snoc :
    isShutDown (h ++ [d]) = (h.isShutDown || d.isShutDown) := by simp [isShutDown]

theorem IsUncalled.documents_eq {h : History} (uncalled : h.IsUncalled) : h.documents = [] := by
  refine List.flatMap_eq_nil_iff.mpr fun d member => ?_
  have silent := uncalled d member
  cases d <;> first | rfl | cases silent

end History

namespace Link

/-! ## The queue -/

/-- An entry comes last in the queue. -/
def enqueue (l : Link) (i : Item) : Link := { l with queue := l.queue ++ [i] }

/-- The queue is open, and there is a place in it. -/
structure HasPlace (l : Link) : Prop where
  isOpen : l.writer ≠ .ended
  length_lt : l.queue.length < queueCapacity

theorem offer_of_ended {l : Link} (ended : l.writer = .ended) (i : Item) :
    l.offer i = .closed := by
  rw [offer, if_pos ended]

theorem HasPlace.offer {l : Link} (place : l.HasPlace) (i : Item) :
    l.offer i = .taken (l.enqueue i) := by
  rw [Link.offer, if_neg place.isOpen, if_pos place.length_lt, enqueue]

/-- The three answers to an offer. -/
theorem offer_cases (l : Link) (i : Item) :
    (l.writer = .ended ∧ l.offer i = .closed) ∨
      (l.HasPlace ∧ l.offer i = .taken (l.enqueue i)) ∨
      (l.writer ≠ .ended ∧ queueCapacity ≤ l.queue.length ∧ l.offer i = .full) := by
  by_cases ended : l.writer = .ended
  · exact .inl ⟨ended, offer_of_ended ended i⟩
  · by_cases short : l.queue.length < queueCapacity
    · exact .inr (.inl ⟨⟨ended, short⟩, HasPlace.offer ⟨ended, short⟩ i⟩)
    · refine .inr (.inr ⟨ended, Nat.le_of_not_lt short, ?_⟩)
      rw [offer, if_neg ended, if_neg short]

/-- What the caller wants to put into the queue, and what it does after that. -/
def parcel? (l : Link) : Option (Item × Caller) :=
  match l.caller with
  | .requesting call id => some (.message (call.message l.client id), .awaiting call id)
  | .greeting => some (.message .initialized, .idle (.ok ()))
  | .showing m => some (.message m, .idle (.ok ()))
  | .leaving => some (.message .exit, .closing)
  | .closing => some (.close, .reaping)
  | _ => none

/-- What the caller does when it finds the queue closed. -/
def turnedAway (l : Link) : Link :=
  match l.caller with
  | .requesting call id => l.giveUp call id .writerClosed
  | .greeting => l.abandon .writerClosed
  | .showing _ => { l with caller := .idle (.error .writerClosed) }
  | .leaving => { l with caller := .closing }
  | .closing => { l with caller := .reaping }
  | _ => l

/-- The caller's step is the same for all that it puts into the queue. -/
theorem caller?_of_parcel {l : Link} {i : Item} {next : Caller}
    (parcel : l.parcel? = some (i, next)) :
    l.caller? = match l.offer i with
      | .full => none
      | .closed => some l.turnedAway
      | .taken l => some { l with caller := next } := by
  unfold parcel? at parcel
  -- five kinds of callers have something to put; for each of them both sides compute
  split at parcel <;> cases parcel <;> rename_i at_caller <;>
    cases offered : l.offer _ <;> simp only [caller?, turnedAway, at_caller, offered]

/-! ## Deeds -/

/-- What can happen on a link, and what comes of it. -/
inductive Does : Link → Deed → Link → Prop
  /-- The caller puts something into the queue. -/
  | put {l : Link} {i : Item} {next : Caller} (parcel : l.parcel? = some (i, next))
      (place : l.HasPlace) : Does l (.puts i) { l.enqueue i with caller := next }
  /-- The caller finds the queue closed. -/
  | turnAway {l : Link} {i : Item} {next : Caller} (parcel : l.parcel? = some (i, next))
      (ended : l.writer = .ended) : Does l .passes l.turnedAway
  /-- The caller takes the answer that it waits for. -/
  | learn {l : Link} {call : Call} {id : Nat} {body : Json} (waits : l.caller = .awaiting call id)
      (answer : l.answer = some body) : Does l (.learns call id body) (l.answered call body)
  /-- The caller finds its request no longer registered. -/
  | orphan {l : Link} {call : Call} {id : Nat} (waits : l.caller = .awaiting call id)
      (silent : l.answer = none) (dropped : id ∉ l.pending) :
      Does l (.lapses call id (.unanswerable call.method))
        (l.giveUp call id (.unanswerable call.method))
  /-- The clock ends the wait for an answer. -/
  | timeOut {l : Link} {call : Call} {id : Nat} (waits : l.caller = .awaiting call id)
      (silent : l.answer = none) (registered : id ∈ l.pending) :
      Does l (.lapses call id (.timedOut call.method)) (l.giveUp call id (.timedOut call.method))
  /-- The caller sees that the server has ended. -/
  | reap {l : Link} (waits : l.caller = .reaping) (dead : l.alive = false) :
      Does l .passes { l with caller := .joining }
  /-- The clock ends the wait for the server's end. -/
  | kill {l : Link} (waits : l.caller = .reaping) (alive : l.alive = true) :
      Does l .passes { l.killed with caller := .joining }
  /-- The caller sees that the writer has ended. -/
  | join {l : Link} (waits : l.caller = .joining) (ended : l.writer = .ended) :
      Does l .passes
        { l with caller := .gone, reader := .ended, output := l.output.closeReading }
  /-- The writer takes a message. -/
  | take {l : Link} {m : Outgoing} {rest : List Item} (idle : l.writer = .idle)
      (first : l.queue = .message m :: rest) :
      Does l (.takes m) { l with queue := rest, writer := .writing m.bytes }
  /-- The writer has written all of a message. -/
  | flush {l : Link} (done : l.writer = .writing []) : Does l .passes { l with writer := .idle }
  /-- The writer writes as much as there is room for. -/
  | write {l : Link} {rest : List UInt8} (writing : l.writer = .writing rest) (more : rest ≠ [])
      (intact : l.input.readable = true) (room : l.input.room ≠ 0) :
      Does l (.writes (rest.take l.input.room))
        { l with
          writer := .writing (rest.drop l.input.room),
          input := l.input.put (rest.take l.input.room) }
  /-- The writer finds nobody at the other end of the pipe. -/
  | breakOff {l : Link} {rest : List UInt8} (writing : l.writer = .writing rest) (more : rest ≠ [])
      (broken : l.input.readable = false) : Does l .passes l.endWriter
  /-- The writer is told to end, or nobody is left to tell it anything. -/
  | quit {l : Link} (idle : l.writer = .idle)
      (released : (∃ rest, l.queue = .close :: rest) ∨ l.queue = [] ∧ l.isDeserted = true) :
      Does l .passes l.endWriter
  /-- The reader comes to the end of a frame, or to a fault. -/
  | report {l : Link} {d : Frame.Decoder} {o : Frame.Outcome} {rest : List UInt8}
      (listens : l.reader = .listening d) (pulled : d.pull l.output.bytes = .inl (o, rest)) :
      Does l (.reads o) (l.report o rest)
  /-- The reader takes bytes that do not end a frame. -/
  | readOn {l : Link} {d d' : Frame.Decoder} (listens : l.reader = .listening d)
      (more : l.output.bytes ≠ []) (pulled : d.pull l.output.bytes = .inr d') :
      Does l .passes { l with output := { l.output with bytes := [] }, reader := .listening d' }
  /-- The stream ends between two frames. -/
  | endOfStream {l : Link} {d : Frame.Decoder} (listens : l.reader = .listening d)
      (empty : l.output.bytes = []) (closed : l.output.writable = false) (clean : d.finish = none) :
      Does l .passes (l.endReader .exited)
  /-- The stream ends within a frame. -/
  | cutShort {l : Link} {d : Frame.Decoder} {o : Frame.Outcome} (listens : l.reader = .listening d)
      (empty : l.output.bytes = []) (closed : l.output.writable = false) (cut : d.finish = some o) :
      Does l (.reads o) (l.report o [])
  /-- The reader refuses a request of the server. -/
  | refuse {l : Link} {id : Json} {method : String} (refusing : l.reader = .refusing id method)
      (place : l.HasPlace) :
      Does l (.puts (.message (.refusal id method)))
        { l.enqueue (.message (.refusal id method)) with reader := .listening .start }
  /-- The reader finds the queue closed. -/
  | dropRefusal {l : Link} {id : Json} {method : String} (refusing : l.reader = .refusing id method)
      (ended : l.writer = .ended) : Does l .passes { l with reader := .listening .start }
  | server {l l' : Link} (m : Move) (moved : l.move? m = some l') : Does l (.server m) l'
  | openDocument {l : Link} {sent : Except Failure Unit} (idle : l.caller = .idle sent)
      (path text : String) : Does l (.opens path text) (l.openDocument path text)
  | shutdown {l : Link} {sent : Except Failure Unit} (idle : l.caller = .idle sent) :
      Does l .shutsDown (l.request .shutdown)

variable {l l' : Link}

/-! ## What is left alone

Where the outcome of a deed depends on more than the party, these lemmas name the fields that may
change. The writing end of the output may be closed, but it is never opened again. -/

/-- The output of a link that may have been closed for the server. -/
def outputIf (stays : Bool) (l : Link) : Pipe :=
  { l.output with writable := stays && l.output.writable }

theorem giveUp_shape (l : Link) (call : Call) (id : Nat) (f : Failure) :
    ∃ caller input stays alive, l.giveUp call id f =
      { l with
        caller, pending := l.pending.erase id, input, output := outputIf stays l, alive } := by
  cases call
  · exact ⟨_, _, false, _, rfl⟩
  · exact ⟨_, _, true, _, rfl⟩

theorem turnedAway_shape (l : Link) : ∃ caller pending input stays alive,
    l.turnedAway = { l with caller, pending, input, output := outputIf stays l, alive } := by
  unfold turnedAway
  split
  · rename_i call id _
    obtain ⟨caller, input, stays, alive, same⟩ := l.giveUp_shape call id .writerClosed
    exact ⟨caller, _, input, stays, alive, same⟩
  · exact ⟨_, _, _, false, _, rfl⟩
  all_goals exact ⟨_, _, _, true, _, rfl⟩

theorem answered_shape (l : Link) (call : Call) (body : Json) : ∃ caller input stays alive,
    l.answered call body =
      { l with caller, answer := none, input, output := outputIf stays l, alive } := by
  unfold answered
  split
  · exact ⟨_, _, false, _, rfl⟩
  all_goals exact ⟨_, _, true, _, rfl⟩

theorem openDocument_shape (l : Link) (path text : String) : ∃ caller documents,
    l.openDocument path text = { l with caller, documents } := by
  unfold openDocument
  split
  · exact ⟨_, _, rfl⟩
  · split <;> exact ⟨_, _, rfl⟩

theorem hear_shape (l : Link) (v : Json) : ∃ pending answer reader events,
    l.hear v = { l with pending, answer, reader, events } := by
  unfold hear
  split
  · split <;> exact ⟨_, _, _, _, rfl⟩
  all_goals exact ⟨_, _, _, _, rfl⟩

theorem report_shape (l : Link) (o : Frame.Outcome) (rest : List UInt8) :
    ∃ pending answer reader output events,
      l.report o rest = { l with pending, answer, reader, output, events } := by
  cases o with
  | value v =>
      obtain ⟨pending, answer, reader, events, same⟩ :=
        hear_shape { l with
          output := { l.output with bytes := rest }, reader := .listening .start } v
      exact ⟨pending, answer, reader, _, events, same⟩
  | fault f => exact ⟨_, _, _, _, _, rfl⟩

/-- A move of the server puts bytes into an open pipe, or only changes what is not the client's. -/
theorem move?_cases {l l' : Link} {m : Move} (moved : l.move? m = some l') :
    (∃ bytes, m = .put bytes ∧ l.output.readable = true ∧ l.output.writable = true ∧
      l' = { l with output := l.output.put bytes }) ∨
    (Deed.supplied (.server m) = [] ∧ ∃ input stays alive,
      l' = { l with input, output := outputIf stays l, alive }) := by
  unfold move? at moved
  split at moved
  · cases moved
  · split at moved
    · cases moved
      exact .inr ⟨rfl, _, true, _, rfl⟩
    · split at moved <;> cases moved
      rename_i bytes free
      simp only [Bool.and_eq_true] at free
      exact .inl ⟨bytes, rfl, free.1.1, free.1.2, rfl⟩
    · cases moved
      exact .inr ⟨rfl, _, true, _, rfl⟩
    · cases moved
      exact .inr ⟨rfl, l.input, false, l.alive, rfl⟩
    · cases moved
      exact .inr ⟨rfl, _, false, _, rfl⟩

theorem move?_shape {l l' : Link} {m : Move} (moved : l.move? m = some l') :
    ∃ input output alive, l' = { l with input, output, alive } := by
  rcases move?_cases moved with ⟨bytes, -, -, -, rfl⟩ | ⟨-, input, stays, alive, rfl⟩ <;>
    exact ⟨_, _, _, rfl⟩

/-- From one link to the other only the caller has moved: what the reader and the writer work with
is as it was, but the server may have been killed. -/
structure OnlyCaller (l l' : Link) : Prop where
  client : l'.client = l.client
  queue : l'.queue = l.queue
  writer : l'.writer = l.writer
  reader : l'.reader = l.reader
  events : l'.events = l.events
  output : ∃ stays, l'.output = outputIf stays l

theorem onlyCaller_giveUp (l : Link) (call : Call) (id : Nat) (f : Failure) :
    l.OnlyCaller (l.giveUp call id f) := by
  obtain ⟨_, _, stays, _, same⟩ := l.giveUp_shape call id f
  rw [same]
  exact ⟨rfl, rfl, rfl, rfl, rfl, stays, rfl⟩

theorem onlyCaller_turnedAway (l : Link) : l.OnlyCaller l.turnedAway := by
  obtain ⟨_, _, _, stays, _, same⟩ := l.turnedAway_shape
  rw [same]
  exact ⟨rfl, rfl, rfl, rfl, rfl, stays, rfl⟩

theorem onlyCaller_answered (l : Link) (call : Call) (body : Json) :
    l.OnlyCaller (l.answered call body) := by
  obtain ⟨_, _, stays, _, same⟩ := l.answered_shape call body
  rw [same]
  exact ⟨rfl, rfl, rfl, rfl, rfl, stays, rfl⟩

theorem onlyCaller_openDocument (l : Link) (path text : String) :
    l.OnlyCaller (l.openDocument path text) := by
  obtain ⟨_, _, same⟩ := l.openDocument_shape path text
  rw [same]
  exact ⟨rfl, rfl, rfl, rfl, rfl, true, rfl⟩

/-! ## Deeds and steps -/

theorem does_of_caller? (goesOn : l.caller? = some l') : ∃ d, l.Does d l' ∧ d.isCall = false := by
  cases parcel : l.parcel? with
  | some p =>
      obtain ⟨i, next⟩ := p
      rw [caller?_of_parcel parcel] at goesOn
      rcases l.offer_cases i with ⟨ended, offered⟩ | ⟨place, offered⟩ | ⟨_, _, offered⟩ <;>
        rw [offered] at goesOn <;> cases goesOn
      · exact ⟨_, .turnAway parcel ended, rfl⟩
      · exact ⟨_, .put parcel place, rfl⟩
  | none =>
      -- the caller has nothing to put into the queue: it waits for something else
      unfold parcel? at parcel
      unfold caller? at goesOn
      split at goesOn <;> rename_i at_caller <;>
        simp only [at_caller, reduceCtorEq] at parcel goesOn
      · rename_i call id
        split at goesOn
        · rename_i body answer
          cases goesOn
          exact ⟨_, .learn at_caller answer, rfl⟩
        · rename_i silent
          split at goesOn <;> cases goesOn
          rename_i dropped
          exact ⟨_, .orphan at_caller silent (by simpa using dropped), rfl⟩
      · split at goesOn <;> cases goesOn
        rename_i dead
        exact ⟨_, .reap at_caller (by simpa using dead), rfl⟩
      · split at goesOn <;> cases goesOn
        rename_i ended
        exact ⟨_, .join at_caller ended, rfl⟩

theorem does_of_clock? (goesOn : l.clock? = some l') : ∃ d, l.Does d l' ∧ d.isCall = false := by
  unfold clock? at goesOn
  split at goesOn
  · rename_i call id at_caller silent
    split at goesOn <;> cases goesOn
    rename_i registered
    exact ⟨_, .timeOut at_caller silent (by simpa using registered), rfl⟩
  · rename_i at_caller
    split at goesOn <;> cases goesOn
    rename_i alive
    exact ⟨_, .kill at_caller alive, rfl⟩
  · cases goesOn

theorem does_of_writer? (goesOn : l.writer? = some l') : ∃ d, l.Does d l' ∧ d.isCall = false := by
  unfold writer? at goesOn
  split at goesOn
  · rename_i idle
    split at goesOn
    · rename_i m rest first
      cases goesOn
      exact ⟨_, .take idle first, rfl⟩
    · rename_i rest first
      cases goesOn
      exact ⟨_, .quit idle (.inl ⟨rest, first⟩), rfl⟩
    · rename_i empty
      split at goesOn <;> cases goesOn
      rename_i deserted
      exact ⟨_, .quit idle (.inr ⟨empty, deserted⟩), rfl⟩
  · rename_i rest writing
    split at goesOn
    · rename_i done
      cases goesOn
      rw [List.isEmpty_iff.mp done] at writing
      exact ⟨_, .flush writing, rfl⟩
    · rename_i more
      rw [List.isEmpty_iff] at more
      split at goesOn
      · rename_i broken
        cases goesOn
        exact ⟨_, .breakOff writing more (by simpa using broken), rfl⟩
      · rename_i intact
        split at goesOn <;> cases goesOn
        rename_i room
        exact ⟨_, .write writing more (by simpa using intact) room, rfl⟩
  · cases goesOn

theorem does_of_reader? (goesOn : l.reader? = some l') : ∃ d, l.Does d l' ∧ d.isCall = false := by
  unfold reader? at goesOn
  split at goesOn
  · rename_i d listens
    split at goesOn
    · rename_i o rest pulled
      cases goesOn
      exact ⟨_, .report listens pulled, rfl⟩
    · rename_i d' pulled
      split at goesOn
      · rename_i more
        cases goesOn
        exact ⟨_, .readOn listens (by simpa using more) pulled, rfl⟩
      · rename_i empty
        have empty : l.output.bytes = [] := by simpa using empty
        -- nothing was there to be read
        rw [empty] at pulled
        cases pulled
        split at goesOn
        · cases goesOn
        · rename_i closed
          have closed : l.output.writable = false := by simpa using closed
          split at goesOn <;> cases goesOn
          · rename_i clean
            exact ⟨_, .endOfStream listens empty closed clean, rfl⟩
          · rename_i o cut
            exact ⟨_, .cutShort listens empty closed cut, rfl⟩
  · rename_i id method refusing
    rcases l.offer_cases (.message (.refusal id method)) with
        ⟨ended, offered⟩ | ⟨place, offered⟩ | ⟨_, _, offered⟩ <;>
      rw [offered] at goesOn <;> cases goesOn
    · exact ⟨_, .dropRefusal refusing ended, rfl⟩
    · exact ⟨_, .refuse refusing place, rfl⟩
  · cases goesOn

/-- Every deed is a step. -/
theorem Does.step {d : Deed} (does : l.Does d l') : l.Step l' := by
  cases does with
  | put parcel place => exact .caller (by rw [caller?_of_parcel parcel, place.offer])
  | turnAway parcel ended => exact .caller (by rw [caller?_of_parcel parcel, offer_of_ended ended])
  | learn waits answer => exact .caller (by simp only [caller?, waits, answer])
  | orphan waits silent dropped => exact .caller (by simp [caller?, waits, silent, dropped])
  | timeOut waits silent registered => exact .clock (by simp [clock?, waits, silent, registered])
  | reap waits dead => exact .caller (by simp [caller?, waits, dead])
  | kill waits alive => exact .clock (by simp [clock?, waits, alive])
  | join waits ended => exact .caller (by simp [caller?, waits, ended])
  | take idle first => exact .writer (by simp only [writer?, idle, first])
  | flush done => exact .writer (by simp [writer?, done])
  | write writing more intact room =>
      exact .writer (by simp [writer?, writing, more, intact, room])
  | breakOff writing more broken => exact .writer (by simp [writer?, writing, more, broken])
  | quit idle released =>
      rcases released with ⟨rest, first⟩ | ⟨empty, deserted⟩
      · exact .writer (by simp only [writer?, idle, first])
      · exact .writer (by simp only [writer?, idle, empty, deserted, if_true])
  | report listens pulled => exact .reader (by simp only [reader?, listens, pulled])
  | readOn listens more pulled => exact .reader (by simp [reader?, listens, pulled, more])
  | endOfStream listens empty closed clean =>
      exact .reader (by simp [reader?, listens, empty, closed, clean, Frame.Decoder.pull])
  | cutShort listens empty closed cut =>
      exact .reader (by simp [reader?, listens, empty, closed, cut, Frame.Decoder.pull])
  | refuse refusing place => exact .reader (by simp only [reader?, refusing, place.offer])
  | dropRefusal refusing ended =>
      exact .reader (by simp only [reader?, refusing, offer_of_ended ended])
  | server m moved => exact .server m moved
  | openDocument idle path text => exact .openDocument _ idle path text
  | shutdown idle => exact .shutdown _ idle

/-- **The deeds are the steps**, no more and no fewer. -/
theorem step_iff_does : l.Step l' ↔ ∃ d, l.Does d l' := by
  constructor
  · intro step
    cases step with
    | caller goesOn => exact (does_of_caller? goesOn).imp fun _ does => does.1
    | clock goesOn => exact (does_of_clock? goesOn).imp fun _ does => does.1
    | writer goesOn => exact (does_of_writer? goesOn).imp fun _ does => does.1
    | reader goesOn => exact (does_of_reader? goesOn).imp fun _ does => does.1
    | server m moved => exact ⟨_, .server m moved⟩
    | openDocument sent idle path text => exact ⟨_, .openDocument idle path text⟩
    | shutdown sent idle => exact ⟨_, .shutdown idle⟩
  · rintro ⟨d, does⟩
    exact does.step

/-! ## Courses -/

/-- `Course l₀ h l`: from `l₀`, what happened in `h` led to `l`. -/
inductive Course (l₀ : Link) : History → Link → Prop
  | nil : Course l₀ [] l₀
  | snoc {h : History} {d : Deed} {l l' : Link} (past : Course l₀ h l) (does : l.Does d l') :
      Course l₀ (h ++ [d]) l'

namespace Course

variable {l₀ l l' : Link} {h k : History} {d : Deed}

theorem trans (first : Course l₀ h l) (second : Course l k l') : Course l₀ (h ++ k) l' := by
  induction second with
  | nil => rwa [List.append_nil]
  | snoc _ does ih =>
      rw [← List.append_assoc]
      exact ih.snoc does

/-- A course can be read up to any point. -/
theorem past (run : Course l₀ h l) (shorter : k <+: h) : ∃ m, Course l₀ k m := by
  induction run with
  | nil =>
      rw [List.prefix_nil.mp shorter]
      exact ⟨l₀, .nil⟩
  | @snoc h d l l' past does ih =>
      rcases List.prefix_concat_iff.mp shorter with rfl | shorter
      · exact ⟨l', past.snoc does⟩
      · exact ih shorter

/-- What was done in the course of a run was done on some link of it. -/
theorem split {before after : History} (run : Course l₀ h l) (cut : h = before ++ d :: after) :
    ∃ m m', Course l₀ before m ∧ m.Does d m' ∧ Course m' after l := by
  induction run generalizing after with
  | nil => simp at cut
  | @snoc h last l l' past does ih =>
      rcases List.eq_nil_or_concat' after with rfl | ⟨rest, last', rfl⟩
      · obtain ⟨rfl, same⟩ := List.append_inj' cut rfl
        cases same
        exact ⟨l, l', past, does, .nil⟩
      · rw [← List.cons_append, ← List.append_assoc] at cut
        obtain ⟨earlier, same⟩ := List.append_inj' cut rfl
        cases same
        obtain ⟨m, m', reached, did, more⟩ := ih earlier
        exact ⟨m, m', reached, did, more.snoc does⟩

theorem reaches (run : Course l₀ h l) : Relation.ReflTransGen Step l₀ l := by
  induction run with
  | nil => exact .refl
  | snoc _ does ih => exact ih.tail does.step

end Course

/-- **Every run of steps has a record.** -/
theorem exists_course {l₀ l : Link} (reaches : Relation.ReflTransGen Step l₀ l) :
    ∃ h, Course l₀ h l := by
  induction reaches with
  | refl => exact ⟨[], .nil⟩
  | tail _ step ih =>
      obtain ⟨h, run⟩ := ih
      obtain ⟨d, does⟩ := step_iff_does.mp step
      exact ⟨h ++ [d], run.snoc does⟩

/-- Something can happen that leads from one link to another, and the writer begins these frames. -/
def Sends (l : Link) (frames : List Outgoing) (l' : Link) : Prop :=
  ∃ h, Course l h l' ∧ h.frames = frames

theorem Does.sends {d : Deed} (does : l.Does d l') : l.Sends d.frames l' :=
  ⟨_, .snoc .nil does, History.frames_snoc [] d⟩

theorem Sends.trans {m : Link} {first second : List Outgoing} (sends : l.Sends first m)
    (more : m.Sends second l') : l.Sends (first ++ second) l' := by
  obtain ⟨h, run, rfl⟩ := sends
  obtain ⟨k, run', rfl⟩ := more
  exact ⟨_, run.trans run', History.frames_append h k⟩

/-- A link in some run of a client. -/
def Reachable (c : Client) (l : Link) : Prop := Relation.ReflTransGen Step (.start c) l

end Link

end Gatekeeper.Server
