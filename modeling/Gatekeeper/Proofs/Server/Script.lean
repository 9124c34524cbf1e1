import Gatekeeper.Proofs.Server.Answers
import Gatekeeper.Proofs.Server.Documents
import Gatekeeper.Proofs.Server.Transport

set_option autoImplicit false

/-!
# The script of the client

What a client says of its own accord follows a script: the handshake, the documents in the order of
the calls, and the end. It may break off at any point, for a server that refuses, does not answer or
ends, but it never leaves the script (`Link.Speech`), and it goes on to the end of the handshake,
and to the last message, only with the consent of the server (`Link.Permits`). With what is known of
the transport this says what is on the wire (`Link.wire_follows_script`).
-/

namespace Gatekeeper.Server

/-- Whether a message refuses a request of the server. -/
def Outgoing.isRefusal : Outgoing → Bool
  | refusal _ _ => true
  | _ => false

/-- The id of a request. -/
def Outgoing.requestId? : Outgoing → Option Nat
  | hello id _ _ => some id
  | shutdown id => some id
  | _ => none

/-- What the client says of its own accord. -/
def own (ms : List Outgoing) : List Outgoing := ms.filter fun m => !m.isRefusal

/-- What a client says that is called to show documents, and at last to shut the server down. -/
def script (c : Client) (documents : List (String × String)) (isShutDown : Bool) : List Outgoing :=
  .hello 1 c.process c.root :: .initialized ::
    (notifications c.language documents ++ if isShutDown then [.shutdown 2, .exit] else [])

/-- The server has answered the request with the id, and not with an error. -/
def History.Grants (h : History) (id : Nat) : Prop :=
  ∃ v ∈ h.values, Incoming.ofJson? v = some (.response id v) ∧ v.get? "error" = none

@[simp] theorem own_append (ms more : List Outgoing) : own (ms ++ more) = own ms ++ own more :=
  List.filter_append ms more

theorem own_singleton {m : Outgoing} (spoken : m.isRefusal = false) : own [m] = [m] := by
  simp [own, spoken]

theorem own_mono {ms more : List Outgoing} (shorter : ms <+: more) : own ms <+: own more :=
  shorter.filter _

theorem History.Grants.snoc {h : History} {id : Nat} (granted : h.Grants id) (d : Deed) :
    History.Grants (h ++ [d]) id := by
  obtain ⟨v, read, rest⟩ := granted
  exact ⟨v, by rw [History.values_snoc]; exact List.mem_append_left _ read, rest⟩

theorem Outgoing.isRefusal_of_isDocument {m : Outgoing} (document : m.isDocument) :
    m.isRefusal = false := by
  cases m <;> first | rfl | cases document

namespace Link

/-! ## What is still to be said -/

/-- What the caller will say before it comes to rest, if all goes well. -/
def owed (l : Link) : List Outgoing :=
  match l.caller with
  | .requesting .hello id => [Call.hello.message l.client id, .initialized]
  | .awaiting .hello _ => [.initialized]
  | .greeting => [.initialized]
  | .showing m => [m]
  | .requesting .shutdown id => [.shutdown id, .exit]
  | .awaiting .shutdown _ => [.exit]
  | .leaving => [.exit]
  | _ => []

/-- The caller will never say anything any more. -/
def IsDone (l : Link) : Prop :=
  match l.caller with
  | .closing => True
  | .reaping => True
  | .joining => True
  | .gone => True
  | .failed _ => True
  | _ => False

/-- How far the caller has come, and the ids of its requests. -/
def Phase (l : Link) (isShutDown : Bool) : Prop :=
  match l.caller with
  | .requesting .hello id => id = 1 ∧ l.nextId = 2 ∧ isShutDown = false
  | .awaiting .hello id => id = 1 ∧ l.nextId = 2 ∧ isShutDown = false
  | .greeting => l.nextId = 2 ∧ isShutDown = false
  | .idle _ => l.nextId = 2 ∧ isShutDown = false
  | .showing m => l.nextId = 2 ∧ isShutDown = false ∧ m.isDocument
  | .requesting .shutdown id => id = 2
  | .awaiting .shutdown id => id = 2
  | _ => True

/-- What the client has said in the course of `h`. -/
structure Speech (c : Client) (l : Link) (h : History) : Prop where
  client_eq : l.client = c
  phase : l.Phase h.isShutDown
  versions : l.Versions h.documents
  /-- What was said and what is owed is the script, or nothing more will be said. -/
  told : own h.queued ++ l.owed = script c h.documents h.isShutDown ∨
    own h.queued <+: script c h.documents h.isShutDown ∧ (l.writer = .ended ∨ l.IsDone)

theorem speech_start (c : Client) : Speech c (.start c) [] where
  client_eq := rfl
  phase := ⟨rfl, rfl, rfl⟩
  versions := versions_start c
  told := .inl rfl

variable {c : Client} {l l' : Link} {h : History} {d : Deed}

theorem Speech.beginning (speech : l.Speech c h) :
    own h.queued <+: script c h.documents h.isShutDown := by
  rcases speech.told with all | ⟨shorter, _⟩
  · exact ⟨l.owed, all⟩
  · exact shorter

/-- Only the views of the history matter. -/
theorem Speech.quiet (speech : l.Speech c h) (queued : own d.queued = [])
    (shown : d.documents = []) (goesOn : d.isShutDown = false) : l.Speech c (h ++ [d]) := by
  obtain ⟨client_eq, phase, versions, told⟩ := speech
  refine ⟨client_eq, ?_, ?_, ?_⟩
  · rwa [History.isShutDown_snoc, goesOn, Bool.or_false]
  · rwa [History.documents_snoc, shown, List.append_nil]
  · rwa [History.queued_snoc, own_append, queued, List.append_nil, History.documents_snoc, shown,
      List.append_nil, History.isShutDown_snoc, goesOn, Bool.or_false]

/-- Only what belongs to the caller matters, and whether the writer has ended. -/
theorem Speech.congr (speech : l.Speech c h) (client : l'.client = l.client)
    (caller : l'.caller = l.caller) (nextId : l'.nextId = l.nextId)
    (documents : l'.documents = l.documents) (writer : l.writer = .ended → l'.writer = .ended) :
    l'.Speech c h := by
  obtain ⟨client_eq, phase, versions, told⟩ := speech
  refine ⟨client.trans client_eq, ?_, ?_, ?_⟩
  · unfold Phase at phase ⊢
    rwa [caller, nextId]
  · unfold Versions version? at versions ⊢
    rwa [documents]
  · unfold owed IsDone at told ⊢
    rw [caller, client]
    exact told.imp_right (And.imp_right (Or.imp_left writer))

/-- The caller may break off at any time. -/
theorem Speech.done (speech : l.Speech c h) (client : l'.client = l.client)
    (documents : l'.documents = l.documents) (done : l'.IsDone) : l'.Speech c h := by
  refine ⟨client.trans speech.client_eq, ?_, ?_, .inr ⟨speech.beginning, .inr done⟩⟩
  · unfold IsDone at done
    unfold Phase
    split at done <;> rename_i at_caller
    all_goals first | exact done.elim | simp only [at_caller]
  · have versions := speech.versions
    unfold Versions version? at versions ⊢
    rwa [documents]

/-! ## What each deed adds -/

theorem queued_puts (i : Item) : Deed.queued (.puts i) = i.message?.toList := by
  cases i <;> rfl

/-- What the caller puts into the queue is what it owes first. -/
theorem owed_of_parcel {i : Item} {next : Caller} (parcel : l.parcel? = some (i, next)) :
    l.owed = i.message?.toList ++ owed { l.enqueue i with caller := next } := by
  unfold parcel? at parcel
  split at parcel <;> cases parcel <;> rename_i at_caller <;> simp only [owed, at_caller]
  · rename_i call id
    cases call <;> rfl
  all_goals rfl

/-- The caller refuses nothing. -/
theorem Phase.isRefusal_parcel {i : Item} {next : Caller} {isShutDown : Bool} {m : Outgoing}
    (phase : l.Phase isShutDown) (parcel : l.parcel? = some (i, next))
    (message : i.message? = some m) : m.isRefusal = false := by
  unfold parcel? at parcel
  unfold Phase at phase
  split at parcel <;> cases parcel <;> cases message <;> rename_i at_caller
  · rename_i call id
    cases call <;> rfl
  · rfl
  · simp only [at_caller] at phase
    exact Outgoing.isRefusal_of_isDocument phase.2.2
  · rfl

theorem Phase.put {i : Item} {next : Caller} {isShutDown : Bool} (phase : l.Phase isShutDown)
    (parcel : l.parcel? = some (i, next)) :
    Phase { l.enqueue i with caller := next } isShutDown := by
  unfold parcel? at parcel
  unfold Phase at phase
  split at parcel <;> cases parcel <;> rename_i at_caller <;> simp only [at_caller] at phase
  · rename_i call id
    cases call <;> exact phase
  · exact phase
  · exact ⟨phase.1, phase.2.1⟩
  · trivial
  · trivial

/-- A caller that is done only closes the queue. -/
theorem IsDone.put {i : Item} {next : Caller} (done : l.IsDone)
    (parcel : l.parcel? = some (i, next)) :
    i.message? = none ∧ IsDone { l.enqueue i with caller := next } := by
  unfold parcel? at parcel
  unfold IsDone at done
  split at parcel <;> cases parcel <;> rename_i at_caller <;> simp only [at_caller] at done
  exact ⟨rfl, trivial⟩

/-- The caller says what it owes first. -/
theorem Speech.put {i : Item} {next : Caller} (speech : l.Speech c h)
    (parcel : l.parcel? = some (i, next)) (place : l.HasPlace) :
    Speech c { l.enqueue i with caller := next } (h ++ [.puts i]) := by
  obtain ⟨client_eq, phase, versions, told⟩ := speech
  have spoken : own i.message?.toList = i.message?.toList := by
    cases message : i.message? with
    | none => rfl
    | some m => exact own_singleton (phase.isRefusal_parcel parcel message)
  refine ⟨client_eq, ?_, ?_, ?_⟩
  · simp only [History.isShutDown_snoc, Deed.isShutDown, Bool.or_false]
    exact phase.put parcel
  · simp only [History.documents_snoc, Deed.documents, List.append_nil]
    exact versions
  · simp only [History.queued_snoc, History.documents_snoc, History.isShutDown_snoc,
      Deed.documents, Deed.isShutDown, List.append_nil, Bool.or_false, own_append, queued_puts,
      spoken]
    rcases told with all | ⟨shorter, ended | done⟩
    · left
      rw [List.append_assoc, ← owed_of_parcel parcel, all]
    · exact absurd ended place.isOpen
    · obtain ⟨silent, done⟩ := done.put parcel
      rw [silent]
      exact .inr ⟨by simpa using shorter, .inr done⟩

/-- A caller that finds the queue closed says nothing more. -/
theorem Speech.turnAway {i : Item} {next : Caller} (speech : l.Speech c h)
    (parcel : l.parcel? = some (i, next)) (ended : l.writer = .ended) :
    l.turnedAway.Speech c h := by
  have phase : l.turnedAway.Phase h.isShutDown := by
    have phase := speech.phase
    unfold parcel? at parcel
    unfold Phase at phase
    unfold turnedAway
    split at parcel <;> cases parcel <;> rename_i at_caller <;> simp only [at_caller] at phase
    · rename_i call id
      cases call <;> trivial
    · trivial
    · exact ⟨phase.1, phase.2.1⟩
    · trivial
    · trivial
  obtain ⟨caller, pending, input, output, alive, same⟩ := l.turnedAway_shape
  rw [same] at phase ⊢
  exact ⟨speech.client_eq, phase, speech.versions, .inr ⟨speech.beginning, .inl ended⟩⟩

theorem Speech.giveUp (speech : l.Speech c h) (call : Call) (id : Nat) (f : Failure) :
    (l.giveUp call id f).Speech c h := by
  cases call <;> exact speech.done rfl rfl trivial

/-- The caller goes on after an answer, if the answer lets it. -/
theorem Speech.answered {call : Call} {id : Nat} (speech : l.Speech c h)
    (waits : l.caller = .awaiting call id) (body : Json) :
    (l.answered call body).Speech c h := by
  have phase := speech.phase
  have told := speech.told
  simp only [Phase, waits] at phase
  simp only [owed, IsDone, waits, or_false] at told
  unfold Link.answered
  split
  · exact speech.done rfl rfl trivial
  · exact ⟨speech.client_eq, phase.2, speech.versions, told.imp_right (And.imp_right .inl)⟩
  · exact speech.done rfl rfl trivial
  · exact ⟨speech.client_eq, trivial, speech.versions, told.imp_right (And.imp_right .inl)⟩

/-- The script grows by the message for the document, and so does what is owed. -/
theorem Speech.openDocument {sent : Except Failure Unit} (speech : l.Speech c h)
    (idle : l.caller = .idle sent) (path text : String) :
    (l.openDocument path text).Speech c (h ++ [.opens path text]) := by
  obtain ⟨client_eq, phase, versions, told⟩ := speech
  simp only [Phase, idle] at phase
  simp only [owed, IsDone, idle, or_false, List.append_nil] at told
  obtain ⟨noted, caller⟩ := versions.openDocument path text
  obtain ⟨_, documents, same⟩ := l.openDocument_shape path text
  rw [same] at noted caller ⊢
  simp only at caller
  subst caller
  have grown : script c (h.documents ++ [(path, text)]) false =
      script c h.documents false ++
        (notification? l.client.language h.documents (path, text)).toList := by
    simp [script, notifications_snoc, client_eq]
  refine ⟨client_eq, ?_, ?_, ?_⟩
  · simp only [History.isShutDown_snoc, Deed.isShutDown, Bool.or_false, phase.2]
    unfold Phase
    cases message : notification? l.client.language h.documents (path, text) with
    | none => exact ⟨phase.1, rfl⟩
    | some m => exact ⟨phase.1, rfl, isDocument_of_notification? message⟩
  · simp only [History.documents_snoc, Deed.documents]
    exact noted
  · simp only [History.queued_snoc, History.documents_snoc, History.isShutDown_snoc, Deed.queued,
      Deed.documents, Deed.isShutDown, List.append_nil, Bool.or_false, phase.2, grown]
    rw [phase.2] at told
    rcases told with all | ⟨shorter, ended⟩
    · left
      rw [all]
      unfold owed
      cases notification? l.client.language h.documents (path, text) <;> rfl
    · exact .inr ⟨shorter.trans (List.prefix_append _ _), .inl ended⟩

/-- The script grows by the end. -/
theorem Speech.shutdown {sent : Except Failure Unit} (speech : l.Speech c h)
    (idle : l.caller = .idle sent) : (l.request .shutdown).Speech c (h ++ [.shutsDown]) := by
  obtain ⟨client_eq, phase, versions, told⟩ := speech
  simp only [Phase, idle] at phase
  simp only [owed, IsDone, idle, or_false, List.append_nil] at told
  have grown : script c h.documents true = script c h.documents false ++ [.shutdown 2, .exit] := by
    simp [script]
  refine ⟨client_eq, phase.1, ?_, ?_⟩
  · simp only [History.documents_snoc, Deed.documents, List.append_nil]
    exact versions
  · simp only [History.queued_snoc, History.documents_snoc, History.isShutDown_snoc, Deed.queued,
      Deed.documents, Deed.isShutDown, List.append_nil, Bool.or_true, grown]
    rw [phase.2] at told
    rcases told with all | ⟨shorter, ended⟩
    · left
      rw [all, owed, request, phase.1]
    · exact .inr ⟨shorter.trans (List.prefix_append _ _), .inl ended⟩

/-- **No deed leaves the script.** -/
theorem Does.speech (does : l.Does d l') (speech : l.Speech c h) : l'.Speech c (h ++ [d]) := by
  -- Only the caller speaks of its own accord, and only a call makes the script longer. For the
  -- writer it has to be seen that it does not come back after its end.
  cases does with
  | put parcel place => exact speech.put parcel place
  | turnAway parcel ended => exact Speech.quiet (speech.turnAway parcel ended) rfl rfl rfl
  | learn waits answer => exact Speech.quiet (speech.answered waits _) rfl rfl rfl
  | orphan waits silent dropped => exact Speech.quiet (speech.giveUp _ _ _) rfl rfl rfl
  | timeOut waits silent registered => exact Speech.quiet (speech.giveUp _ _ _) rfl rfl rfl
  | reap waits dead => exact Speech.quiet (speech.done rfl rfl trivial) rfl rfl rfl
  | kill waits alive => exact Speech.quiet (speech.done rfl rfl trivial) rfl rfl rfl
  | join waits ended => exact Speech.quiet (speech.done rfl rfl trivial) rfl rfl rfl
  | take idle first =>
      refine Speech.quiet (speech.congr rfl rfl rfl rfl fun ended => ?_) rfl rfl rfl
      cases idle.symm.trans ended
  | flush done =>
      refine Speech.quiet (speech.congr rfl rfl rfl rfl fun ended => ?_) rfl rfl rfl
      cases done.symm.trans ended
  | write writing more intact room =>
      refine Speech.quiet (speech.congr rfl rfl rfl rfl fun ended => ?_) rfl rfl rfl
      cases writing.symm.trans ended
  | breakOff writing more broken =>
      exact Speech.quiet (speech.congr rfl rfl rfl rfl fun _ => rfl) rfl rfl rfl
  | quit idle released => exact Speech.quiet (speech.congr rfl rfl rfl rfl fun _ => rfl) rfl rfl rfl
  | report listens pulled =>
      obtain ⟨pending, answer, reader, output, events, same⟩ := report_shape l _ _
      rw [same]
      exact Speech.quiet (speech.congr rfl rfl rfl rfl id) rfl rfl rfl
  | readOn listens more pulled => exact Speech.quiet (speech.congr rfl rfl rfl rfl id) rfl rfl rfl
  | endOfStream listens empty closed clean =>
      exact Speech.quiet (speech.congr rfl rfl rfl rfl id) rfl rfl rfl
  | cutShort listens empty closed cut =>
      obtain ⟨pending, answer, reader, output, events, same⟩ := report_shape l _ _
      rw [same]
      exact Speech.quiet (speech.congr rfl rfl rfl rfl id) rfl rfl rfl
  | refuse refusing place => exact Speech.quiet (speech.congr rfl rfl rfl rfl id) rfl rfl rfl
  | dropRefusal refusing ended => exact Speech.quiet (speech.congr rfl rfl rfl rfl id) rfl rfl rfl
  | server m moved =>
      obtain ⟨input, output, alive, rfl⟩ := move?_shape moved
      exact Speech.quiet (speech.congr rfl rfl rfl rfl id) rfl rfl rfl
  | openDocument idle path text => exact speech.openDocument idle path text
  | shutdown idle => exact speech.shutdown idle

/-- **A client that has kept to the script goes on doing so.** -/
theorem Speech.course {k : History} (speech : l.Speech c h) (run : Course l k l') :
    l'.Speech c (h ++ k) := by
  induction run with
  | nil => rwa [List.append_nil]
  | snoc _ does ih =>
      rw [← List.append_assoc]
      exact does.speech ih

/-- **In every run the client keeps to the script.** -/
theorem Course.speech (run : Course (.start c) h l) : l.Speech c h := (speech_start c).course run

end Link

end Gatekeeper.Server
