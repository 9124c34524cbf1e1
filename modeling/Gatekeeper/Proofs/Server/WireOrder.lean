import Gatekeeper.Proofs.Server.Script

set_option autoImplicit false

/-!
# What is on the wire, and when

The client ends the handshake, and sends its last message, only after the server has granted what it
was asked for (`Link.Permits`). Together with the script of what the client says, and with what is
known of the way from the queue to the wire, this gives the order of the frames that a server can
see, whatever the server does (`Link.wire_follows_script`).
-/

namespace Gatekeeper.Server

/-- The id of the request that must have been granted before the caller gets here. -/
def Caller.grant? : Caller → Option Nat
  | greeting => some 1
  | leaving => some 2
  | _ => none

/-- The id of the request that must have been granted before this is said. -/
def Outgoing.grant? : Outgoing → Option Nat
  | initialized => some 1
  | exit => some 2
  | _ => none

theorem Outgoing.grant?_of_isDocument {m : Outgoing} (document : m.isDocument) :
    m.grant? = none := by
  cases m <;> first | rfl | cases document

namespace Link

variable {c : Client} {l l' : Link} {h : History} {d : Deed}

/-! ## Consent -/

/-- What the caller is about to say, or has said, it may say. -/
structure Permits (l : Link) (h : History) : Prop where
  caller : ∀ id ∈ l.caller.grant?, h.Grants id
  said : ∀ m ∈ h.queued, ∀ id ∈ m.grant?, h.Grants id

theorem permits_start (c : Client) : Permits (.start c) [] where
  caller _ needed := by cases needed
  said _ queued := by cases queued

/-- Who says what needs consent must have it. -/
theorem Permits.snoc (permits : l.Permits h)
    (caller : ∀ id ∈ l'.caller.grant?, History.Grants (h ++ [d]) id)
    (said : ∀ m ∈ d.queued, ∀ id ∈ m.grant?, h.Grants id) : l'.Permits (h ++ [d]) := by
  refine ⟨caller, fun m queued id needed => ?_⟩
  rw [History.queued_snoc] at queued
  rcases List.mem_append.mp queued with before | now
  · exact (permits.said m before id needed).snoc d
  · exact (said m now id needed).snoc d

/-- A caller that stays where it is needs no more consent. -/
theorem Permits.stay (permits : l.Permits h) (caller : l'.caller = l.caller)
    (free : ∀ m ∈ d.queued, m.grant? = none) : l'.Permits (h ++ [d]) := by
  refine permits.snoc (fun id needed => ?_) (fun m now id needed => ?_)
  · exact (permits.caller id (caller ▸ needed)).snoc d
  · rw [free m now] at needed
    cases needed

/-- Neither does one that waits while somebody goes on in silence. -/
theorem Permits.wait (permits : l.Permits h) (caller : l'.caller = l.caller)
    (silent : d.queued = []) : l'.Permits (h ++ [d]) :=
  permits.stay caller (by simp [silent])

/-- A caller that goes on in silence, and not to what needs consent. -/
theorem Permits.goOn (permits : l.Permits h) (free : l'.caller.grant? = none)
    (silent : d.queued = []) : l'.Permits (h ++ [d]) := by
  refine permits.snoc (fun id needed => ?_) (fun m now => ?_)
  · rw [free] at needed
    cases needed
  · rw [silent] at now
    cases now

/-- What the caller says needs no other consent than the caller has. -/
theorem Phase.grant?_parcel {i : Item} {next : Caller} {isShutDown : Bool}
    (phase : l.Phase isShutDown) (parcel : l.parcel? = some (i, next)) :
    next.grant? = none ∧ ∀ m ∈ i.message?, m.grant? = l.caller.grant? := by
  unfold parcel? at parcel
  unfold Phase at phase
  split at parcel <;> cases parcel <;> rename_i at_caller <;> rw [at_caller] <;>
    simp only [at_caller] at phase
  · rename_i call id
    refine ⟨rfl, ?_⟩
    rintro m ⟨⟩
    cases call <;> rfl
  · exact ⟨rfl, by rintro m ⟨⟩; rfl⟩
  · refine ⟨rfl, ?_⟩
    rintro m ⟨⟩
    exact Outgoing.grant?_of_isDocument phase.2.2
  · exact ⟨rfl, by rintro m ⟨⟩; rfl⟩
  · exact ⟨rfl, by rintro m ⟨⟩⟩

theorem Permits.put {i : Item} {next : Caller} (permits : l.Permits h)
    (phase : l.Phase h.isShutDown) (parcel : l.parcel? = some (i, next)) :
    Permits { l.enqueue i with caller := next } (h ++ [.puts i]) := by
  obtain ⟨free, same⟩ := phase.grant?_parcel parcel
  refine permits.snoc (fun id needed => ?_) (fun m now id needed => ?_)
  · rw [free] at needed
    cases needed
  · rw [queued_puts] at now
    rw [same m (Option.mem_toList.mp now)] at needed
    exact permits.caller id needed

theorem Permits.turnAway {i : Item} {next : Caller} (permits : l.Permits h)
    (parcel : l.parcel? = some (i, next)) : l.turnedAway.Permits (h ++ [.passes]) := by
  refine permits.goOn ?_ rfl
  unfold parcel? at parcel
  unfold turnedAway
  split at parcel <;> cases parcel
  · rename_i call id _
    cases call <;> rfl
  all_goals rfl

theorem Permits.giveUp (permits : l.Permits h) (call : Call) (id : Nat) (f : Failure) :
    (l.giveUp call id f).Permits (h ++ [.lapses call id f]) := by
  cases call <;> exact permits.goOn rfl rfl

/-- An answer that lets the caller go on is a grant. -/
theorem Permits.answered {call : Call} {id : Nat} {body : Json} (permits : l.Permits h)
    (phase : l.Phase h.isShutDown) (expects : l.Expects h.values)
    (waits : l.caller = .awaiting call id) (answer : l.answer = some body) :
    (l.answered call body).Permits (h ++ [.learns call id body]) := by
  have granted : refusalReason? body = none → History.Grants (h ++ [.learns call id body]) id := by
    intro accepted
    simp only [Expects, waits] at expects
    rcases expects with ⟨_, silent⟩ | ⟨_, found, read, same, response⟩
    · cases silent.symm.trans answer
    · cases same.symm.trans answer
      have granted : h.Grants id := ⟨body, read, response, Option.map_eq_none_iff.mp accepted⟩
      exact granted.snoc _
  unfold Phase at phase
  simp only [waits] at phase
  unfold Link.answered
  split
  · exact permits.goOn rfl rfl
  · rename_i accepted
    refine permits.snoc ?_ (fun m now => by cases now)
    rintro _ ⟨⟩
    exact phase.1 ▸ granted accepted
  · exact permits.goOn rfl rfl
  · rename_i accepted
    refine permits.snoc ?_ (fun m now => by cases now)
    rintro _ ⟨⟩
    exact phase ▸ granted accepted

/-- **No deed says what is not permitted.** -/
theorem Does.permits (does : l.Does d l') (permits : l.Permits h)
    (phase : l.Phase h.isShutDown) (expects : l.Expects h.values) : l'.Permits (h ++ [d]) := by
  cases does with
  | put parcel place => exact permits.put phase parcel
  | turnAway parcel ended => exact permits.turnAway parcel
  | learn waits answer => exact permits.answered phase expects waits answer
  | orphan waits silent dropped => exact permits.giveUp _ _ _
  | timeOut waits silent registered => exact permits.giveUp _ _ _
  | reap waits dead => exact permits.goOn rfl rfl
  | kill waits alive => exact permits.goOn rfl rfl
  | join waits ended => exact permits.goOn rfl rfl
  | take idle first => exact permits.wait rfl rfl
  | flush done => exact permits.wait rfl rfl
  | write writing more intact room => exact permits.wait rfl rfl
  | breakOff writing more broken => exact permits.wait rfl rfl
  | quit idle released => exact permits.wait rfl rfl
  | report listens pulled =>
      obtain ⟨pending, answer, reader, output, events, same⟩ := report_shape l _ _
      rw [same]
      exact permits.wait rfl rfl
  | readOn listens more pulled => exact permits.wait rfl rfl
  | endOfStream listens empty closed clean => exact permits.wait rfl rfl
  | cutShort listens empty closed cut =>
      obtain ⟨pending, answer, reader, output, events, same⟩ := report_shape l _ _
      rw [same]
      exact permits.wait rfl rfl
  | refuse refusing place => exact permits.stay rfl (by simp [Deed.queued, Outgoing.grant?])
  | dropRefusal refusing ended => exact permits.wait rfl rfl
  | server m moved =>
      obtain ⟨input, output, alive, rfl⟩ := move?_shape moved
      exact permits.wait rfl rfl
  | openDocument idle path text =>
      refine permits.goOn ?_ rfl
      unfold Link.openDocument
      split
      · rfl
      · split <;> rfl
  | shutdown idle => exact permits.goOn rfl rfl

/-- **In every run the client says what is permitted.** -/
theorem Course.permits (run : Course (.start c) h l) : l.Permits h := by
  induction run with
  | nil => exact permits_start c
  | snoc past does ih => exact does.permits ih past.speech.phase past.expects

/-! ## What a script looks like -/

/-- In a script no document comes after a request to shut down. -/
theorem script_pairwise (c : Client) (documents : List (String × String)) (isShutDown : Bool) :
    (script c documents isShutDown).Pairwise fun first later =>
      later.isDocument → ∀ id, first ≠ .shutdown id := by
  have shown : ∀ m ∈ notifications c.language documents, ∀ id, m ≠ .shutdown id := by
    rintro m shown id rfl
    cases isDocument_of_mem_notifications shown
  refine List.pairwise_cons.mpr ⟨fun _ _ _ => nofun, List.pairwise_cons.mpr
    ⟨fun _ _ _ => nofun, List.pairwise_append.mpr ⟨?_, ?_, ?_⟩⟩⟩
  · exact List.pairwise_of_forall_mem_list fun first member _ _ _ => shown first member
  · cases isShutDown <;> simp [Outgoing.isDocument]
  · exact fun first member _ _ _ => shown first member

/-- The requests of a script have the ids 1 and 2. -/
theorem requestIds_script (c : Client) (documents : List (String × String)) (isShutDown : Bool) :
    (script c documents isShutDown).filterMap Outgoing.requestId? =
      1 :: if isShutDown then [2] else [] := by
  have silent : (notifications c.language documents).filterMap Outgoing.requestId? = [] := by
    refine List.filterMap_eq_nil_iff.mpr fun m shown => ?_
    have document := isDocument_of_mem_notifications shown
    cases m <;> first | rfl | cases document
  unfold script
  rw [List.filterMap_cons, List.filterMap_cons, List.filterMap_append, silent]
  cases isShutDown <;> rfl

/-- A document in a beginning of a script comes after the handshake, and before the end. -/
theorem document_in_script {documents : List (String × String)} {isShutDown : Bool}
    {before after : List Outgoing} {m : Outgoing}
    (begun : before ++ m :: after <+: script c documents isShutDown) (document : m.isDocument) :
    .initialized ∈ before ∧ ∀ id, .shutdown id ∉ before := by
  constructor
  · -- the first two messages are no documents
    match before, begun with
    | [], begun =>
        cases (List.cons_prefix_cons.mp begun).1
        cases document
    | [_], begun =>
        cases (List.cons_prefix_cons.mp (List.cons_prefix_cons.mp begun).2).1
        cases document
    | _ :: _ :: _, begun =>
        rw [(List.cons_prefix_cons.mp (List.cons_prefix_cons.mp begun).2).1]
        exact List.mem_cons_of_mem _ List.mem_cons_self
  · intro id shutDown
    have ordered := (script_pairwise c documents isShutDown).sublist begun.sublist
    exact (List.pairwise_append.mp ordered).2.2 _ shutDown m List.mem_cons_self document id rfl

/-! ## The order on the wire -/

/-- **What a server gets to see follows the script.** The bytes in the pipe are frames, of which
only the last may be cut short. The messages in the frames were put into the queue in this order.
Without the refusals they are a beginning of the script: the handshake, the documents in the order
of the calls, and the end. The end of the handshake is begun only when the server has granted the
handshake, and the last message only when it has granted the shutdown. No document comes before the
end of the handshake or after the request to shut down, and the ids of the requests increase. -/
theorem wire_follows_script (run : Course (.start c) h l) :
    (h.written <+: h.frames.flatMap Outgoing.bytes ∧
      h.frames.dropLast.flatMap Outgoing.bytes <+: h.written) ∧
    h.frames <+: h.queued ∧
    own h.frames <+: script c h.documents h.isShutDown ∧
    (∀ past : History, past <+: h →
      (.initialized ∈ past.frames → past.Grants 1) ∧ (.exit ∈ past.frames → past.Grants 2)) ∧
    (∀ before m after, own h.frames = before ++ m :: after → m.isDocument →
      .initialized ∈ before ∧ ∀ id, .shutdown id ∉ before) ∧
    ((own h.queued).filterMap Outgoing.requestId?).Pairwise (· < ·) := by
  have transport := run.transport
  have said := run.speech.beginning
  have begun : own h.frames <+: script c h.documents h.isShutDown :=
    (own_mono transport.beginning).trans said
  refine ⟨⟨?_, transport.whole⟩, transport.beginning, begun, ?_, ?_, ?_⟩
  · obtain ⟨rest, cut, _⟩ := transport.cut
    exact ⟨rest, cut⟩
  · intro past shorter
    obtain ⟨m, run'⟩ := run.past shorter
    have queued := run'.transport.beginning.subset
    exact ⟨fun sent => run'.permits.said _ (queued sent) 1 rfl,
      fun sent => run'.permits.said _ (queued sent) 2 rfl⟩
  · intro before m after all document
    exact document_in_script (all ▸ begun) document
  · have ids := said.filterMap Outgoing.requestId?
    rw [requestIds_script] at ids
    refine List.Pairwise.sublist ids.sublist ?_
    split <;> decide

/-- A caller that closes the queue, with nothing left to write, can come to its end. -/
theorem exists_gone (closing : l.caller = .closing) (empty : l.queue = [])
    (idle : l.writer = .idle) (alive : l.alive = true) :
    ∃ l', l'.caller = .gone ∧ l.Sends [] l' := by
  have closes : l.Does (.puts .close) { l with queue := [.close], caller := .reaping } := by
    have parcel : l.parcel? = some (.close, .reaping) := by rw [parcel?, closing]
    have put := Does.put parcel ⟨by simp [idle], by simp [empty, queueCapacity]⟩
    rwa [enqueue, empty] at put
  have quits := Does.quit (l := { l with queue := [.close], caller := .reaping }) idle
    (.inl ⟨[], rfl⟩)
  -- the server ends by itself
  have exits := Does.server (l := endWriter { l with queue := [.close], caller := .reaping }) .exit
    (by rw [move?, endWriter, alive]; rfl)
  have reaps := Does.reap (l := killed (endWriter { l with queue := [.close], caller := .reaping }))
    rfl rfl
  have joins := Does.join (l := { killed (endWriter { l with queue := [.close] }) with
    caller := .joining }) rfl rfl
  exact ⟨_, rfl, closes.sends.trans (quits.sends.trans
    (exits.sends.trans (reaps.sends.trans joins.sends)))⟩

/-- What the caller says gets written, if nothing is left to write and the server reads. -/
theorem sends_parcel {m : Outgoing} {next : Caller} (parcel : l.parcel? = some (.message m, next))
    (empty : l.queue = []) (idle : l.writer = .idle) (alive : l.alive = true)
    (intact : l.input.readable = true) :
    l.Sends [m] { l with caller := next, queue := [], writer := .idle,
                         input := { l.input with bytes := [] } } := by
  have put := Does.put parcel ⟨by simp [idle], by simp [empty, queueCapacity]⟩
  exact put.sends.trans (sends_first alive intact idle (by simp [enqueue, empty]))

/-- The link to a server that reads everything at once. -/
def attended (caller : Caller) (nextId : Nat) (pending : List Nat)
    (versions : List (String × Nat)) : Link :=
  { client := simpleClient, caller, nextId, pending,
    documents := { opened := versions.map Prod.fst, versions } }

/-- A client shows one document to a server that reads and grants everything, and shuts it down. -/
theorem exists_whole_course : ∃ l, l.caller = .gone ∧ (Link.start simpleClient).Sends
    [.hello 1 0 "file:///", .initialized, .opened "file:///a.cfg" "cfg" 1 "x", .shutdown 2, .exit]
    l := by
  have hello : greeted.Sends [.hello 1 0 "file:///"]
      { greeted with queue := [.message .initialized] } := sends_first rfl rfl rfl rfl
  have initialized : Sends { greeted with queue := [.message .initialized] }
      [.initialized] (attended (.idle (.ok ())) 2 [] []) := sends_first rfl rfl rfl rfl
  have opens : (attended (.idle (.ok ())) 2 [] []).Sends []
      (attended (.showing (.opened "file:///a.cfg" "cfg" 1 "x")) 2 [] [("file:///a.cfg", 1)]) :=
    (Does.openDocument rfl "/a.cfg" "x").sends
  have opened : (attended (.showing (.opened "file:///a.cfg" "cfg" 1 "x")) 2 []
      [("file:///a.cfg", 1)]).Sends [.opened "file:///a.cfg" "cfg" 1 "x"]
      (attended (.idle (.ok ())) 2 [] [("file:///a.cfg", 1)]) := sends_parcel rfl rfl rfl rfl rfl
  have asks : (attended (.idle (.ok ())) 2 [] [("file:///a.cfg", 1)]).Sends []
      (attended (.requesting .shutdown 2) 3 [2] [("file:///a.cfg", 1)]) :=
    (Does.shutdown rfl).sends
  have asked : (attended (.requesting .shutdown 2) 3 [2] [("file:///a.cfg", 1)]).Sends
      [.shutdown 2] (attended (.awaiting .shutdown 2) 3 [2] [("file:///a.cfg", 1)]) :=
    sends_parcel rfl rfl rfl rfl rfl
  have granted : (attended (.awaiting .shutdown 2) 3 [2] [("file:///a.cfg", 1)]).Sends []
      (attended .leaving 3 [] [("file:///a.cfg", 1)]) :=
    (Does.server (.put (Frame.encode (grant 2))) rfl).sends
      |>.trans (@Does.report _ .start (.value (grant 2)) [] rfl rfl).sends
      |>.trans (@Does.learn _ .shutdown 2 (grant 2) rfl rfl).sends
  have left : (attended .leaving 3 [] [("file:///a.cfg", 1)]).Sends [.exit]
      (attended .closing 3 [] [("file:///a.cfg", 1)]) := sends_parcel rfl rfl rfl rfl rfl
  obtain ⟨l, gone, closed⟩ := exists_gone (l := attended .closing 3 [] [("file:///a.cfg", 1)])
    rfl rfl rfl rfl
  exact ⟨l, gone, sends_greeted.trans (hello.trans (initialized.trans (opens.trans (opened.trans
    (asks.trans (asked.trans (granted.trans (left.trans closed))))))))⟩

/-- The whole conversation with such a server. -/
theorem wire_follows_script_whole : ∃ h l, Course (.start simpleClient) h l ∧ l.caller = .gone ∧
    h.frames = [.hello 1 0 "file:///", .initialized, .opened "file:///a.cfg" "cfg" 1 "x",
      .shutdown 2, .exit] ∧
    h.frames.dropLast.flatMap Outgoing.bytes <+: h.written ∧
    own h.frames <+: script simpleClient h.documents h.isShutDown ∧
    h.Grants 1 ∧ h.Grants 2 := by
  obtain ⟨l, gone, h, run, frames⟩ := exists_whole_course
  obtain ⟨bytes, _, begun, granted, _⟩ := wire_follows_script run
  have consent := granted h (List.prefix_refl h)
  exact ⟨h, l, run, gone, frames, bytes.2, begun, consent.1 (by simp [frames]),
    consent.2 (by simp [frames])⟩

end Link

end Gatekeeper.Server
