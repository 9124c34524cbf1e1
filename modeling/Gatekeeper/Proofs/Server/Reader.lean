import Gatekeeper.Proofs.Frame.Stream
import Gatekeeper.Proofs.Server.Incoming

set_option autoImplicit false

/-!
# The reader's place in the stream

What the reader has read is the beginning of what the stream of the server says, up to its first
fault, and what it tells the host is what the values call for (`Link.Listens`). At the end of the
stream, or at its first fault, it tells the host why it stops. Nobody but the reader takes bytes
from the stream, and when the stream is over, nothing keeps the reader from coming to its end but a
full queue (`Link.toRead`, `Link.reader?_eq_none`).
-/

namespace Gatekeeper.Server

open Gatekeeper.Frame (Decoder transcript)

/-- The events that are owed for values: one for each message for the host. -/
def announcements (session : Session.Id) (values : List Json) : List Event :=
  values.filterMap (Incoming.announcement? session)

/-- Why the reader stops at a fault, or where there is none. -/
def StopReason.ofFault? : Option Frame.Fault → StopReason
  | none => .exited
  | some f => .failed f

/-- The state in which the reader reads on. -/
def Reader.decoder : Reader → Decoder
  | listening d => d
  | _ => .start

theorem announcements_append (session : Session.Id) (values more : List Json) :
    announcements session (values ++ more) =
      announcements session values ++ announcements session more := List.filterMap_append

namespace Link

variable {c : Client} {l l' : Link} {h : History} {d : Deed}

/-! ## What hearing a value adds -/

theorem hear_events (l : Link) (v : Json) :
    (l.hear v).events = l.events ++ announcements l.client.session [v] := by
  cases Incoming.reading v with
  | request reading isRequest =>
      simp [hear, reading, announcements, Incoming.announcement?_of_request? isRequest]
  | response reading responds =>
      have silent : Incoming.announcement? l.client.session v = none :=
        Incoming.announcement?_of_respondsTo responds
      simp only [hear, reading, announcements]
      split <;> simp [silent]
  | @message shown kind text reading announces =>
      cases shown <;> simp [hear, reading, announcements, announces, emit]
  | other reading isNoRequest silent => simp [hear, reading, announcements, silent]

/-- The reader refuses a value that is a request, and goes on after any other. -/
theorem hear_reader (l : Link) (v : Json) :
    (l.hear v).reader = match Incoming.request? v with
      | some (id, method) => .refusing id method
      | none => l.reader := by
  cases Incoming.reading v with
  | request reading isRequest => simp [hear, reading, isRequest]
  | response reading responds =>
      simp only [hear, reading, Incoming.request?_of_respondsTo responds]
      split <;> rfl
  | @message shown kind text reading announces =>
      have isNoRequest : Incoming.request? v = none := by
        cases request : Incoming.request? v with
        | none => rfl
        | some r =>
            have announced := announces l.client.session
            rw [Incoming.announcement?_of_request? request] at announced
            cases announced
      cases shown <;> simp [hear, reading, isNoRequest, emit]
  | other reading isNoRequest silent => simp [hear, reading, isNoRequest]

/-! ## Reading the stream -/

/-- The reader reads: it has taken the bytes before those in the pipe, and has told the host what
was in them. -/
structure Attends (l : Link) (h : History) : Prop where
  isOpen : l.output.readable = true
  taken : ∃ taken, h.supplied = taken ++ l.output.bytes ∧
    Decoder.start.feed taken = (h.values.map .value, l.reader.decoder)
  events : l.events = announcements l.client.session h.values

/-- The reader has ended: because the client went away, or by itself, at the end of the stream or
at its first fault, after which it does not matter what would come. -/
structure Ended (l : Link) (h : History) : Prop where
  isClosed : l.output.readable = false
  beginning : h.values <+: (transcript h.supplied).1
  cause : l.caller = .gone ∧ l.events = announcements l.client.session h.values ∨
    ∃ fault?, transcript h.supplied = (h.values, fault?) ∧
      (l.output.writable = false ∨ ∀ more, transcript (h.supplied ++ more) = (h.values, fault?)) ∧
      l.events = announcements l.client.session h.values ++
        [.stopped l.client.session (.ofFault? fault?)]

/-- How far the reader has come. -/
def Listens (l : Link) (h : History) : Prop :=
  l.reader ≠ .ended ∧ l.Attends h ∨ l.reader = .ended ∧ l.Ended h

theorem listens_start (c : Client) : Listens (.start c) [] :=
  .inl ⟨nofun, rfl, ⟨[], rfl, rfl⟩, rfl⟩

theorem Listens.attends (listens : l.Listens h) (running : l.reader ≠ .ended) : l.Attends h := by
  rcases listens with ⟨_, attends⟩ | ⟨ended, _⟩
  · exact attends
  · exact absurd ended running

/-- A caller that is gone stays away. -/
theorem Does.gone (does : l.Does d l') (gone : l.caller = .gone) : l'.caller = .gone := by
  cases does
  case put parcel _ => simp [parcel?, gone] at parcel
  case turnAway parcel _ => simp [parcel?, gone] at parcel
  case report o rest _ _ =>
    obtain ⟨_, _, _, _, _, same⟩ := report_shape l o rest
    rw [same]
    exact gone
  case cutShort o _ _ _ _ =>
    obtain ⟨_, _, _, _, _, same⟩ := report_shape l o []
    rw [same]
    exact gone
  case server moved =>
    obtain ⟨_, _, _, rfl⟩ := move?_shape moved
    exact gone
  all_goals first | exact gone | simp_all

/-- A deed of the others leaves the reader where it is. -/
theorem Listens.congr (listens : l.Listens h) (gone : l.caller = .gone → l'.caller = .gone)
    (client : l'.client = l.client) (ends : l'.reader = .ended ↔ l.reader = .ended)
    (decoder : l'.reader.decoder = l.reader.decoder) (events : l'.events = l.events)
    (output : ∃ stays, l'.output = outputIf stays l) (values : d.values = [])
    (supplied : d.supplied = []) : l'.Listens (h ++ [d]) := by
  obtain ⟨stays, output⟩ := output
  rcases listens with ⟨running, isOpen, taken, told⟩ | ⟨ended, isClosed, beginning, cause⟩
  · refine .inl ⟨mt ends.mp running, ?_, ?_, ?_⟩
    · rw [output]
      exact isOpen
    · simpa [values, supplied, output, decoder, outputIf] using taken
    · simpa [values, events, client] using told
  · refine .inr ⟨ends.mpr ended, ?_, ?_, ?_⟩
    · rw [output]
      exact isClosed
    · simpa [values, supplied] using beginning
    · simp only [History.values_snoc, History.supplied_snoc, values, supplied, List.append_nil,
        events, client]
      rcases cause with ⟨aborted, told⟩ | ⟨fault?, read, last, told⟩
      · exact .inl ⟨gone aborted, told⟩
      · refine .inr ⟨fault?, read, last.imp_left fun closed => ?_, told⟩
        rw [output, outputIf, closed, Bool.and_false]

/-- So does one of the caller. -/
theorem Listens.onlyCaller (listens : l.Listens h) (own : l.OnlyCaller l')
    (gone : l.caller = .gone → l'.caller = .gone) (values : d.values = [])
    (supplied : d.supplied = []) : l'.Listens (h ++ [d]) :=
  listens.congr gone own.client (by rw [own.reader]) (by rw [own.reader]) own.events own.output
    values supplied

/-- What the server supplies comes last in the pipe. -/
theorem Listens.supply {bytes : List UInt8} (listens : l.Listens h)
    (readable : l.output.readable = true) :
    Listens { l with output := l.output.put bytes } (h ++ [.server (.put bytes)]) := by
  rcases listens with ⟨running, isOpen, ⟨taken, all, fed⟩, told⟩ | ⟨_, isClosed, _, _⟩
  · refine .inl ⟨running, isOpen, ⟨taken, ?_, ?_⟩, ?_⟩
    · simp [Deed.supplied, all, Pipe.put]
    · simpa [Deed.values] using fed
    · simpa [Deed.values] using told
  · rw [isClosed] at readable
    cases readable

/-- The reader comes to the end of a frame. -/
theorem Attends.value {dec : Decoder} {v : Json} {rest : List UInt8} (attends : l.Attends h)
    (listens : l.reader = .listening dec)
    (pulled : dec.pull l.output.bytes = .inl (.value v, rest)) :
    (l.report (.value v) rest).Listens (h ++ [.reads (.value v)]) := by
  obtain ⟨isOpen, ⟨taken, all, fed⟩, told⟩ := attends
  obtain ⟨frame, bytes, read⟩ := Frame.Decoder.feed_of_pull_report pulled
  rw [listens, Reader.decoder] at fed
  have reader : (l.report (.value v) rest).reader = match Incoming.request? v with
      | some (id, method) => .refusing id method
      | none => .listening .start := hear_reader _ v
  have events : (l.report (.value v) rest).events =
      l.events ++ announcements l.client.session [v] := hear_events _ v
  have decoder : (l.report (.value v) rest).reader.decoder = .start := by
    rw [reader]
    split <;> rfl
  have running : (l.report (.value v) rest).reader ≠ .ended := by
    rw [reader]
    split <;> nofun
  obtain ⟨pending, answer, reader', events', same⟩ :=
    hear_shape { l with output := { l.output with bytes := rest }, reader := .listening .start } v
  have client : (l.report (.value v) rest).client = l.client := by rw [report, same]
  have output : (l.report (.value v) rest).output = { l.output with bytes := rest } := by
    rw [report, same]
  refine .inl ⟨running, ?_, ⟨taken ++ frame, ?_, ?_⟩, ?_⟩
  · rw [output]
    exact isOpen
  · rw [output]
    simp [Deed.supplied, all, bytes]
  · rw [decoder, Frame.Decoder.feed_append, fed]
    simp [read, Deed.values]
  · rw [events, told, client]
    simp [Deed.values, announcements_append]

/-- The reader comes to a fault. -/
theorem Attends.fault {dec : Decoder} {f : Frame.Fault} {rest : List UInt8} (attends : l.Attends h)
    (listens : l.reader = .listening dec)
    (pulled : dec.pull l.output.bytes = .inl (.fault f, rest)) :
    (l.report (.fault f) rest).Listens (h ++ [.reads (.fault f)]) := by
  obtain ⟨isOpen, ⟨taken, all, fed⟩, told⟩ := attends
  obtain ⟨frame, bytes, read⟩ := Frame.Decoder.feed_of_pull_report pulled
  rw [listens, Reader.decoder] at fed
  have supplied : History.supplied (h ++ [.reads (.fault f)]) = taken ++ frame ++ rest := by
    simp [Deed.supplied, all, bytes]
  have values : History.values (h ++ [.reads (.fault f)]) = h.values := by simp [Deed.values]
  -- a decoder that has come to a fault reads nothing more, whatever follows
  have stops : ∀ more, transcript (taken ++ frame ++ more) = (h.values, some f) := by
    refine Frame.transcript_of_fault (d := .start) ?_
    rw [Frame.Decoder.feed_append, fed]
    simp [read]
  refine .inr ⟨rfl, rfl, ?_, .inr ⟨some f, ?_, .inr fun more => ?_, ?_⟩⟩
  · simp only [supplied, values, stops, List.prefix_refl]
  · rw [supplied, values, stops]
  · rw [supplied, values, List.append_assoc, stops]
  · rw [values]
    exact congrArg (· ++ [.stopped l.client.session (.failed f)]) told

/-- The stream is over, and the reader tells the host. -/
theorem Attends.finishes {dec : Decoder} (attends : l.Attends h) (fault? : Option Frame.Fault)
    (listens : l.reader = .listening dec) (empty : l.output.bytes = [])
    (closed : l.output.writable = false) (finished : dec.finish = fault?.map .fault)
    (values : d.values = []) (supplied : d.supplied = []) :
    (l.endReader (.ofFault? fault?)).Listens (h ++ [d]) := by
  obtain ⟨isOpen, ⟨taken, all, fed⟩, told⟩ := attends
  rw [listens, Reader.decoder] at fed
  rw [empty, List.append_nil] at all
  have read : transcript h.supplied = (h.values, fault?) := by
    rw [all]
    cases fault? with
    | none => exact Frame.transcript_of_finish_none fed finished
    | some f => exact Frame.transcript_of_finish_some fed finished
  refine .inr ⟨rfl, rfl, ?_, .inr ⟨fault?, ?_, .inl closed, ?_⟩⟩
  · simp [values, supplied, read]
  · simpa [values, supplied] using read
  · simp [values, endReader, emit, told]

/-- The client stops the reader when the server has been shut down. -/
theorem Listens.join (listens : l.Listens h) :
    Listens { l with caller := .gone, reader := .ended, output := l.output.closeReading }
      (h ++ [.passes]) := by
  rcases listens with ⟨_, _, ⟨taken, all, fed⟩, told⟩ | ⟨_, _, beginning, cause⟩
  · refine .inr ⟨rfl, rfl, ?_, .inl ⟨rfl, ?_⟩⟩
    · simp only [History.values_snoc, History.supplied_snoc, Deed.values, Deed.supplied,
        List.append_nil, all]
      exact Frame.values_isPrefix_transcript fed _
    · simpa [Deed.values] using told
  · refine .inr ⟨rfl, rfl, by simpa [Deed.values, Deed.supplied] using beginning, ?_⟩
    simp only [History.values_snoc, History.supplied_snoc, Deed.values, Deed.supplied,
      List.append_nil]
    exact cause.imp_left fun aborted => ⟨trivial, aborted.2⟩

/-- **A deed keeps the reader's place in the stream.** -/
theorem Does.listens (does : l.Does d l') (listens : l.Listens h) : l'.Listens (h ++ [d]) := by
  have gone := does.gone
  cases does with
  | put parcel place => exact listens.congr gone rfl .rfl rfl rfl ⟨true, rfl⟩ rfl rfl
  | turnAway parcel ended => exact listens.onlyCaller l.onlyCaller_turnedAway gone rfl rfl
  | learn waits answer => exact listens.onlyCaller (l.onlyCaller_answered _ _) gone rfl rfl
  | orphan waits silent dropped =>
      exact listens.onlyCaller (l.onlyCaller_giveUp _ _ _) gone rfl rfl
  | timeOut waits silent registered =>
      exact listens.onlyCaller (l.onlyCaller_giveUp _ _ _) gone rfl rfl
  | reap waits dead => exact listens.congr gone rfl .rfl rfl rfl ⟨true, rfl⟩ rfl rfl
  | kill waits alive => exact listens.congr gone rfl .rfl rfl rfl ⟨false, rfl⟩ rfl rfl
  | join waits ended => exact listens.join
  | take idle first => exact listens.congr gone rfl .rfl rfl rfl ⟨true, rfl⟩ rfl rfl
  | flush done => exact listens.congr gone rfl .rfl rfl rfl ⟨true, rfl⟩ rfl rfl
  | write writing more intact room => exact listens.congr gone rfl .rfl rfl rfl ⟨true, rfl⟩ rfl rfl
  | breakOff writing more broken => exact listens.congr gone rfl .rfl rfl rfl ⟨true, rfl⟩ rfl rfl
  | quit idle released => exact listens.congr gone rfl .rfl rfl rfl ⟨true, rfl⟩ rfl rfl
  | @report dec o rest reading pulled =>
      have attends := listens.attends (by simp [reading])
      cases o with
      | value v => exact attends.value reading pulled
      | fault f => exact attends.fault reading pulled
  | @readOn dec dec' reading more pulled =>
      obtain ⟨isOpen, ⟨taken, all, fed⟩, told⟩ := listens.attends (by simp [reading])
      rw [reading, Reader.decoder] at fed
      -- the pipe is empty now: all that was supplied has been taken
      refine .inl ⟨nofun, isOpen, ⟨taken ++ l.output.bytes, ?_, ?_⟩, ?_⟩
      · simp [Deed.supplied, all]
      · rw [Frame.Decoder.feed_append, fed]
        simp [Frame.Decoder.feed_of_pull_more pulled, Deed.values, Reader.decoder]
      · simpa [Deed.values] using told
  | endOfStream reading empty closed clean =>
      have attends := listens.attends (by simp [reading])
      exact attends.finishes none reading empty closed clean rfl rfl
  | @cutShort dec o reading empty closed cut =>
      have attends := listens.attends (by simp [reading])
      obtain ⟨f, rfl⟩ := Frame.finish_fault cut
      exact attends.finishes (some f) reading empty closed cut rfl rfl
  | refuse refusing place =>
      exact listens.congr gone rfl (by simp [refusing]) (by rw [refusing]; rfl) rfl ⟨true, rfl⟩ rfl
        rfl
  | dropRefusal refusing ended =>
      exact listens.congr gone rfl (by simp [refusing]) (by rw [refusing]; rfl) rfl ⟨true, rfl⟩ rfl
        rfl
  | server m moved =>
      rcases move?_cases moved with ⟨bytes, rfl, readable, -, rfl⟩ |
        ⟨silent, input, stays, alive, rfl⟩
      · exact listens.supply readable
      · exact listens.congr gone rfl .rfl rfl rfl ⟨stays, rfl⟩ rfl silent
  | openDocument idle path text =>
      exact listens.onlyCaller (l.onlyCaller_openDocument path text) gone rfl rfl
  | shutdown idle => exact listens.congr gone rfl .rfl rfl rfl ⟨true, rfl⟩ rfl rfl

/-- **In every run the reader has its place in the stream.** -/
theorem Course.listens (run : Course (.start c) h l) : l.Listens h := by
  induction run with
  | nil => exact listens_start c
  | snoc _ does ih => exact does.listens ih

/-! ## Coming to the end -/

/-- How many steps the reader may still take, if nothing is added to the pipe. -/
def toRead (l : Link) : Nat :=
  2 * l.output.bytes.length + match l.reader with
    | .listening _ => 1
    | .refusing _ _ => 2
    | .ended => 0

theorem toRead_report_le (l : Link) (o : Frame.Outcome) (rest : List UInt8) :
    (l.report o rest).toRead ≤ 2 * rest.length + 2 := by
  cases o with
  | fault f => exact Nat.zero_le _
  | value v =>
      have reader : (l.report (.value v) rest).reader = match Incoming.request? v with
          | some (id, method) => .refusing id method
          | none => .listening .start := hear_reader _ v
      obtain ⟨_, _, _, _, same⟩ := hear_shape
        { l with output := { l.output with bytes := rest }, reader := .listening .start } v
      have output : (l.report (.value v) rest).output = { l.output with bytes := rest } := by
        rw [report, same]
      rw [toRead, reader, output]
      cases Incoming.request? v with
      | none => exact Nat.le_succ _
      | some r => exact Nat.le_refl _

/-- The reader gets on with every step. -/
theorem toRead_lt_of_reader? (goesOn : l.reader? = some l') : l'.toRead < l.toRead := by
  -- following the reader's step: a frame costs at least one byte, which counts for two, and a
  -- refusal is one step of its own
  unfold reader? at goesOn
  split at goesOn
  · rename_i dec listens
    have length : l.toRead = 2 * l.output.bytes.length + 1 := by rw [toRead, listens]
    split at goesOn
    · rename_i o rest pulled
      cases goesOn
      obtain ⟨frame, bytes, read⟩ := Frame.Decoder.feed_of_pull_report pulled
      have some_byte : frame ≠ [] := by
        rintro rfl
        cases read
      have shorter : rest.length < l.output.bytes.length := by
        rw [bytes, List.length_append]
        exact Nat.lt_add_of_pos_left (List.length_pos_iff.mpr some_byte)
      have := l.toRead_report_le o rest
      omega
    · rename_i dec' pulled
      split at goesOn
      · rename_i more
        cases goesOn
        have some_byte : 0 < l.output.bytes.length := by
          simpa [List.length_pos_iff] using more
        have after : toRead { l with
            output := { l.output with bytes := [] }, reader := .listening dec' } = 1 := rfl
        omega
      · split at goesOn
        · cases goesOn
        · split at goesOn <;> cases goesOn
          · have after : (l.endReader .exited).toRead = 0 := rfl
            omega
          · rename_i o cut
            obtain ⟨f, rfl⟩ := Frame.finish_fault cut
            have after : (l.report (.fault f) []).toRead = 0 := rfl
            omega
  · rename_i id method refusing
    have length : l.toRead = 2 * l.output.bytes.length + 2 := by rw [toRead, refusing]
    have after : ∀ l' : Link, l'.output = l.output → l'.reader = .listening .start →
        l'.toRead < l.toRead := by
      intro l' output reader
      rw [length, toRead, output, reader]
      exact Nat.lt_succ_self _
    rcases l.offer_cases (.message (.refusal id method)) with
        ⟨_, offered⟩ | ⟨_, offered⟩ | ⟨_, _, offered⟩ <;>
      rw [offered] at goesOn <;> cases goesOn <;> exact after _ rfl rfl
  · cases goesOn

/-- The caller does not give the reader more to do. -/
theorem OnlyCaller.toRead_le (own : l.OnlyCaller l') : l'.toRead ≤ l.toRead := by
  obtain ⟨stays, output⟩ := own.output
  rw [toRead, toRead, output, own.reader]
  exact Nat.le_refl _

/-- When the stream is over, nobody does. -/
theorem Does.toRead_le (does : l.Does d l') (closed : l.output.writable = false) :
    l'.toRead ≤ l.toRead := by
  cases does with
  | turnAway parcel ended => exact l.onlyCaller_turnedAway.toRead_le
  | learn waits answer => exact (l.onlyCaller_answered _ _).toRead_le
  | orphan waits silent dropped => exact (l.onlyCaller_giveUp _ _ _).toRead_le
  | timeOut waits silent registered => exact (l.onlyCaller_giveUp _ _ _).toRead_le
  | join waits ended => exact Nat.zero_le _
  | report listens pulled =>
      exact Nat.le_of_lt (toRead_lt_of_reader? (by simp only [reader?, listens, pulled]))
  | readOn listens more pulled =>
      exact Nat.le_of_lt (toRead_lt_of_reader? (by simp [reader?, listens, pulled, more]))
  | endOfStream listens empty closed clean => exact Nat.zero_le _
  | cutShort listens empty closed cut =>
      obtain ⟨f, rfl⟩ := Frame.finish_fault cut
      exact Nat.zero_le _
  | refuse refusing place =>
      exact Nat.le_of_lt (toRead_lt_of_reader? (by simp only [reader?, refusing, place.offer]))
  | dropRefusal refusing ended =>
      exact Nat.le_of_lt
        (toRead_lt_of_reader? (by simp only [reader?, refusing, offer_of_ended ended]))
  | server m moved =>
      rcases move?_cases moved with ⟨bytes, _, _, isOpen, _⟩ | ⟨_, input, stays, alive, rfl⟩
      · rw [closed] at isOpen
        cases isOpen
      · exact Nat.le_refl _
  | openDocument idle path text => exact (l.onlyCaller_openDocument path text).toRead_le
  | _ => exact Nat.le_refl _

/-- The reader rests only when it has ended, when there is nothing to read and there may be more, or
when the queue is full. -/
theorem reader?_eq_none (rests : l.reader? = none) :
    l.reader = .ended ∨ (l.output.bytes = [] ∧ l.output.writable = true) ∨
      (l.writer ≠ .ended ∧ queueCapacity ≤ l.queue.length) := by
  unfold reader? at rests
  split at rests
  · split at rests
    · cases rests
    · split at rests
      · cases rests
      · rename_i empty
        split at rests
        · rename_i isOpen
          exact .inr (.inl ⟨by simpa using empty, isOpen⟩)
        · split at rests <;> cases rests
  · rename_i id method refusing
    rcases l.offer_cases (.message (.refusal id method)) with
        ⟨_, offered⟩ | ⟨_, offered⟩ | ⟨isOpen, long, offered⟩ <;>
      rw [offered] at rests <;> cases rests
    exact .inr (.inr ⟨isOpen, long⟩)
  · rename_i ended
    exact .inl ended

end Link

end Gatekeeper.Server
