import Gatekeeper.Proofs.Server.Reader
import Gatekeeper.Proofs.Server.Script

set_option autoImplicit false

/-!
# The reader's accounts

For each value that the reader has read it owes the server a refusal, the host an event, or nothing.
The events are told at once; a refusal needs a place in the queue, which the reader shares with the
caller (`Link.Refuses`). So along every course, whatever the other parties do, every frame is
accounted for (`Link.every_frame_is_accounted_for`).
-/

namespace Gatekeeper.Server

open Gatekeeper.Frame (Decoder transcript)

/-- The refusals among the messages. -/
def refusals (ms : List Outgoing) : List Outgoing := ms.filter Outgoing.isRefusal

/-- The replies that are owed for values: one refusal for each request. -/
def replies (values : List Json) : List Outgoing :=
  (values.filterMap Incoming.request?).map fun r => .refusal r.1 r.2

/-- The refusal that has still to be put into the queue. -/
def Reader.inHand : Reader → List Outgoing
  | refusing id method => [.refusal id method]
  | _ => []

/-- A refusal gives the id back as it came. -/
theorem toJson_refusal (id : Json) (method : String) :
    (Outgoing.refusal id method).toJson = .object [
      ("error", .object [
        ("code", .number (.whole (-32601))),
        ("message", .string ("Method not found: " ++ method))]),
      ("id", id), ("jsonrpc", .string "2.0")] := by
  have code_message : ¬ "message" < "code" := by decide +kernel
  have error_id : "error" < "id" := by decide +kernel
  have id_jsonrpc : "id" < "jsonrpc" := by decide +kernel
  simp [Outgoing.toJson, Outgoing.message, Json.ofMembers, Json.insertMember, methodNotFound,
    code_message, error_id, id_jsonrpc]

theorem refusals_append (ms more : List Outgoing) :
    refusals (ms ++ more) = refusals ms ++ refusals more := List.filter_append ms more

theorem refusals_singleton (id : Json) (method : String) :
    refusals [.refusal id method] = [.refusal id method] := rfl

theorem replies_append (values more : List Json) :
    replies (values ++ more) = replies values ++ replies more := by simp [replies]

namespace Link

variable {c : Client} {l l' : Link} {h : History} {d : Deed}

/-! ## Refusing requests -/

/-- The refusals that are owed are in the queue, or one of them is about to be put there. Only when
the queue has been closed are any lost. -/
def Refuses (l : Link) (h : History) : Prop :=
  ∃ lost, refusals h.queued ++ lost ++ l.reader.inHand = replies h.values ∧
    (lost ≠ [] → l.writer = .ended)

theorem refuses_start (c : Client) : Refuses (.start c) [] := ⟨[], rfl, absurd rfl⟩

/-- A writer that has ended does not begin again. -/
theorem Does.ended (does : l.Does d l') (ended : l.writer = .ended) : l'.writer = .ended := by
  cases does
  case turnAway => exact l.onlyCaller_turnedAway.writer.trans ended
  case learn => exact (l.onlyCaller_answered _ _).writer.trans ended
  case orphan => exact (l.onlyCaller_giveUp _ _ _).writer.trans ended
  case timeOut => exact (l.onlyCaller_giveUp _ _ _).writer.trans ended
  case report o rest _ _ =>
    obtain ⟨_, _, _, _, _, same⟩ := report_shape l o rest
    rw [same]
    exact ended
  case cutShort o _ _ _ _ =>
    obtain ⟨_, _, _, _, _, same⟩ := report_shape l o []
    rw [same]
    exact ended
  case server moved =>
    obtain ⟨_, _, _, rfl⟩ := move?_shape moved
    exact ended
  case openDocument path text => exact (l.onlyCaller_openDocument path text).writer.trans ended
  all_goals first | exact ended | rfl | simp_all

/-- A deed of the others refuses nothing. -/
theorem Refuses.congr (refuses : l.Refuses h) (does : l.Does d l')
    (inHand : l'.reader.inHand = l.reader.inHand) (values : d.values = [])
    (queued : refusals d.queued = []) : l'.Refuses (h ++ [d]) := by
  obtain ⟨lost, all, closed⟩ := refuses
  refine ⟨lost, ?_, fun some => does.ended (closed some)⟩
  rw [History.queued_snoc, refusals_append, queued, List.append_nil, inHand, all,
    History.values_snoc, values, List.append_nil]

/-- The reader has a refusal to put into the queue after a request, and none otherwise. -/
theorem Refuses.report {dec : Decoder} {o : Frame.Outcome} (refuses : l.Refuses h)
    (listens : l.reader = .listening dec) (rest : List UInt8) :
    (l.report o rest).Refuses (h ++ [.reads o]) := by
  obtain ⟨lost, all, closed⟩ := refuses
  have writer : (l.report o rest).writer = l.writer := by
    obtain ⟨_, _, _, _, _, same⟩ := report_shape l o rest
    rw [same]
  have inHand : (l.report o rest).reader.inHand = replies (Deed.values (.reads o)) := by
    cases o with
    | fault f => rfl
    | value v =>
        rw [Link.report, hear_reader]
        cases request : Incoming.request? v <;> simp [replies, Deed.values, request, Reader.inHand]
  have free : l.reader.inHand = [] := by rw [listens]; rfl
  have silent : Deed.queued (.reads o) = [] := rfl
  rw [free, List.append_nil] at all
  refine ⟨lost, ?_, fun some => writer.trans (closed some)⟩
  rw [History.queued_snoc, silent, List.append_nil, all, inHand, History.values_snoc,
    replies_append]

/-- What the caller puts into the queue is no refusal. -/
theorem Phase.refusals_parcel {i : Item} {next : Caller} {isShutDown : Bool}
    (phase : l.Phase isShutDown) (parcel : l.parcel? = some (i, next)) :
    refusals (Deed.queued (.puts i)) = [] := by
  rw [queued_puts]
  cases message : i.message? with
  | none => rfl
  | some m => simp [refusals, phase.isRefusal_parcel parcel message]

/-- **A deed keeps the account of the refusals.** -/
theorem Does.refuses (does : l.Does d l') (phase : l.Phase h.isShutDown)
    (refuses : l.Refuses h) : l'.Refuses (h ++ [d]) := by
  have others := refuses.congr does
  -- three deeds touch the account: a value is read, a refusal is put into the queue, or it is
  -- dropped; and a reader that is stopped loses what it has in hand
  cases does with
  | put parcel place => exact others rfl rfl (phase.refusals_parcel parcel)
  | turnAway parcel ended => exact others (by rw [l.onlyCaller_turnedAway.reader]) rfl rfl
  | learn waits answer => exact others (by rw [(l.onlyCaller_answered _ _).reader]) rfl rfl
  | orphan waits silent dropped =>
      exact others (by rw [(l.onlyCaller_giveUp _ _ _).reader]) rfl rfl
  | timeOut waits silent registered =>
      exact others (by rw [(l.onlyCaller_giveUp _ _ _).reader]) rfl rfl
  | reap waits dead => exact others rfl rfl rfl
  | kill waits alive => exact others rfl rfl rfl
  | join waits ended =>
      -- the reader is stopped, and what it had in hand is lost
      obtain ⟨lost, all, closed⟩ := refuses
      refine ⟨lost ++ l.reader.inHand, ?_, fun _ => ended⟩
      simpa [Deed.queued, Deed.values, Reader.inHand] using all
  | take idle first => exact others rfl rfl rfl
  | flush done => exact others rfl rfl rfl
  | write writing more intact room => exact others rfl rfl rfl
  | breakOff writing more broken => exact others rfl rfl rfl
  | quit idle released => exact others rfl rfl rfl
  | report listens pulled => exact refuses.report listens _
  | readOn listens more pulled => exact others (by rw [listens]; rfl) rfl rfl
  | endOfStream listens empty closed clean => exact others (by rw [listens]; rfl) rfl rfl
  | cutShort listens empty closed cut => exact refuses.report listens _
  | refuse refusing place =>
      obtain ⟨lost, all, closed⟩ := refuses
      -- the queue is open still, so nothing was lost before
      have none : lost = [] := by
        by_contra some
        exact place.isOpen (closed some)
      refine ⟨[], ?_, absurd rfl⟩
      simpa [none, refusing, Reader.inHand, Deed.queued, Deed.values, refusals_append,
        refusals_singleton] using all
  | @dropRefusal id method refusing ended =>
      obtain ⟨lost, all, closed⟩ := refuses
      refine ⟨lost ++ [.refusal id method], ?_, fun _ => ended⟩
      simpa [refusing, Reader.inHand, Deed.queued, Deed.values] using all
  | server m moved =>
      obtain ⟨input, output, alive, rfl⟩ := move?_shape moved
      exact others rfl rfl rfl
  | openDocument idle path text =>
      exact others (by rw [(l.onlyCaller_openDocument path text).reader]) rfl rfl
  | shutdown idle => exact others rfl rfl rfl

/-! ## The accounts -/

theorem Course.refuses (run : Course (.start c) h l) : l.Refuses h := by
  induction run with
  | nil => exact refuses_start c
  | snoc past does ih => exact does.refuses past.speech.phase ih

/-- **The reader accounts for every frame.** The values it has read are a beginning of those that
the stream of the server says up to its first fault. In their order,

* each request among them has one refusal, in the queue or about to be put there, and only after
  the queue was closed is any lost; the refusal has the id of the request, and the code of an
  unknown method;
* each message for the host among them has one event, of the server's own session.

There is nothing else for any of them, and nothing has both. The reader ends when the client goes
away after shutting the server down. Else it ends by itself, when it has read all there is up to the
end of the stream or the first fault, with one last event: the server has exited if the stream ended
between two frames, and failed otherwise. It rests before that only if there may be more to read, or
while the queue is full; and when the stream is over, what it has to do gets less with each of its
steps, and more with none. -/
theorem every_frame_is_accounted_for (run : Course (.start c) h l) :
    h.values <+: (transcript h.supplied).1 ∧
    (∃ lost, refusals h.queued ++ lost ++ l.reader.inHand = replies h.values ∧
      (lost ≠ [] → l.writer = .ended)) ∧
    (∀ id method, (Outgoing.refusal id method).toJson = .object [
      ("error", .object [
        ("code", .number (.whole (-32601))),
        ("message", .string ("Method not found: " ++ method))]),
      ("id", id), ("jsonrpc", .string "2.0")]) ∧
    (∀ v, Incoming.request? v = none ∨ Incoming.announcement? c.session v = none) ∧
    ((l.reader ≠ .ended ∨ l.caller = .gone) ∧ l.events = announcements c.session h.values ∨
      l.reader = .ended ∧ transcript h.supplied = (h.values, (transcript h.supplied).2) ∧
      (l.output.writable = false ∨
        ∀ more, transcript (h.supplied ++ more) = transcript h.supplied) ∧
      ∃ reason, l.events = announcements c.session h.values ++ [.stopped c.session reason] ∧
        reason = .ofFault? (transcript h.supplied).2 ∧
        (reason = .exited ↔ Decoder.start.feed h.supplied = (h.values.map .value, .start))) ∧
    (l.reader? = none → l.reader = .ended ∨ (l.output.bytes = [] ∧ l.output.writable = true) ∨
      (l.writer ≠ .ended ∧ queueCapacity ≤ l.queue.length)) ∧
    (l.output.writable = false → (∀ d l', l.Does d l' → l'.toRead ≤ l.toRead) ∧
      ∀ l', l.reader? = some l' → l'.toRead < l.toRead) := by
  have client : l.client = c := run.speech.client_eq
  have disjoint : ∀ v, Incoming.request? v = none ∨ Incoming.announcement? c.session v = none := by
    intro v
    cases request : Incoming.request? v with
    | none => exact .inl rfl
    | some r => exact .inr (Incoming.announcement?_of_request? request)
  have listens := run.listens
  refine ⟨?_, run.refuses, toJson_refusal, disjoint, ?_, reader?_eq_none,
    fun closed => ⟨fun d l' does => does.toRead_le closed, fun l' => toRead_lt_of_reader?⟩⟩
  · rcases listens with ⟨_, _, ⟨taken, all, fed⟩, _⟩ | ⟨_, _, beginning, _⟩
    · rw [all]
      exact Frame.values_isPrefix_transcript fed _
    · exact beginning
  · rcases listens with ⟨running, attends⟩ |
      ⟨ended, _, _, ⟨gone, told⟩ | ⟨fault?, read, last, told⟩⟩
    · exact .inl ⟨.inl running, client ▸ attends.events⟩
    · exact .inl ⟨.inr gone, client ▸ told⟩
    · rw [client] at told
      refine .inr ⟨ended, by rw [read], ?_, _, told, by rw [read], ?_⟩
      · rwa [read]
      · have between := @Frame.transcript_snd_eq_none_iff h.supplied
        rw [read] at between
        rw [← between]
        cases fault? with
        | none => exact iff_of_true rfl rfl
        | some f => exact iff_of_false nofun nofun

/-- What a server says that asks for something. -/
def ask : Json := .ofMembers [("id", .null), ("method", .string "m")]

/-- What a server says that tells the user something. -/
def tell : Json := .ofMembers [
  ("method", .string "window/showMessage"),
  ("params", .ofMembers [("type", .ofNat 2), ("message", .string "t")])]

set_option maxRecDepth 4000 in
/-- A server asks, tells, and breaks off within a frame. -/
theorem exists_cut_short : ∃ h l, Course (.start simpleClient) h l ∧ l.reader = .ended ∧
    l.writer ≠ .ended ∧ l.caller ≠ .gone ∧ h.values = [ask, tell] ∧
    (transcript h.supplied).2 = some .truncatedHeaders := by
  have start : Course (.start simpleClient) [] (.start simpleClient) := .nil
  have asked := start
    |>.snoc (.server (.put (Frame.encode ask)) rfl)
    |>.snoc (@Does.report _ .start (.value ask) [] rfl rfl)
    |>.snoc (@Does.refuse _ .null "m" rfl ⟨by decide, by decide⟩)
  have told := asked
    |>.snoc (.server (.put (Frame.encode tell)) rfl)
    |>.snoc (@Does.report _ .start (.value tell) [] rfl rfl)
  have brokenOff := told
    |>.snoc (.server (.put [65]) rfl)
    |>.snoc (.server .closeOutput rfl)
    |>.snoc (@Does.readOn _ .start (.headers [65] true none) rfl nofun rfl)
    |>.snoc (@Does.cutShort _ (.headers [65] true none) (.fault .truncatedHeaders) rfl rfl rfl rfl)
  exact ⟨_, _, brokenOff, rfl, nofun, nofun, rfl, rfl⟩

/-- What comes of it. -/
theorem every_frame_is_accounted_for_cut_short : ∃ h l, Course (.start simpleClient) h l ∧
    h.values = [ask, tell] ∧ refusals h.queued = [.refusal .null "m"] ∧
    l.events = [.show ⟨1⟩ .warning "t", .stopped ⟨1⟩ (.failed .truncatedHeaders)] := by
  obtain ⟨h, l, run, ended, isOpen, stays, values, fault⟩ := exists_cut_short
  obtain ⟨_, ⟨lost, all, closed⟩, _, _, stops, _⟩ := every_frame_is_accounted_for run
  refine ⟨h, l, run, values, ?_, ?_⟩
  · have none : lost = [] := by
      by_contra some
      exact isOpen (closed some)
    have owed : replies [ask, tell] = [.refusal .null "m"] := rfl
    rw [none, ended, values, owed] at all
    simpa [Reader.inHand] using all
  · rcases stops with ⟨running | gone, _⟩ | ⟨_, _, _, reason, told, why, _⟩
    · exact absurd ended running
    · exact absurd gone stays
    · rw [told, why, fault, values]
      rfl

end Link

end Gatekeeper.Server
