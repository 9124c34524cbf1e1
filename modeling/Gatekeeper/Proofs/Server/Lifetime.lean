import Gatekeeper.Proofs.Server.Script

set_option autoImplicit false

/-!
# The life of a document

Of the messages that the client sends, those about one document depend on the calls with its URI
only: it is opened with the text of the first of them, and changed with the text of each later one
to the version that counts them (`lifetime`, `about_notifications`). Calls for other documents, and
calls with a path that has no URI, make no difference.

The client sends a message about a document after each call, or is about to, as long as the queue
takes its messages (`Link.Synchronised`); and whatever happens, the messages about a document are a
beginning of its life (`Link.Speech.about_queued`).
-/

namespace Gatekeeper.Server

/-- The URI of the document that a message shows. -/
def Outgoing.uri? : Outgoing → Option String
  | opened uri _ _ _ => some uri
  | changed uri _ _ => some uri
  | _ => none

/-- The version of the document that a message shows. -/
def Outgoing.version? : Outgoing → Option Nat
  | opened _ _ version _ => some version
  | changed _ version _ => some version
  | _ => none

/-- The messages about the document with a URI. -/
def about (uri : String) (ms : List Outgoing) : List Outgoing :=
  ms.filter fun m => m.uri? = some uri

/-- The texts that a document was to be shown with. -/
def textsShown (uri : String) (documents : List (String × String)) : List String :=
  (documents.filter fun d => Uri.ofPath? d.1 = some uri).map Prod.snd

/-- The messages about a document that is shown with one text after another. -/
def lifetime (uri language : String) (texts : List String) : List Outgoing :=
  texts.mapIdx fun k text =>
    if k = 0 then .opened uri language 1 text else .changed uri (k + 1) text

variable {uri language : String} {documents : List (String × String)}

theorem about_append (uri : String) (ms more : List Outgoing) :
    about uri (ms ++ more) = about uri ms ++ about uri more := List.filter_append ms more

/-- Messages about no document are not about this one. -/
theorem about_eq_nil {ms : List Outgoing} (others : ms.filterMap Outgoing.uri? = []) :
    about uri ms = [] := by
  refine List.filter_eq_nil_iff.mpr fun m member => ?_
  rw [List.filterMap_eq_nil_iff.mp others m member]
  simp

theorem about_own (uri : String) (ms : List Outgoing) : about uri (own ms) = about uri ms := by
  rw [about, own, List.filter_filter]
  refine List.filter_congr fun m _ => ?_
  cases m <;> simp [Outgoing.uri?, Outgoing.isRefusal]

theorem length_textsShown (uri : String) (documents : List (String × String)) :
    (textsShown uri documents).length = timesShown uri documents := by
  rw [textsShown, List.length_map, timesShown, List.countP_eq_length_filter]

/-- The message for a call is the next one in the life of its document. -/
theorem about_notification? (uri language : String) (documents : List (String × String))
    (d : String × String) :
    lifetime uri language (textsShown uri (documents ++ [d])) =
      lifetime uri language (textsShown uri documents) ++
        about uri (notification? language documents d).toList := by
  by_cases named : Uri.ofPath? d.1 = some uri
  · have grown : textsShown uri (documents ++ [d]) = textsShown uri documents ++ [d.2] := by
      simp [textsShown, named]
    have message : notification? language documents d = some
        (if timesShown uri documents = 0 then .opened uri language 1 d.2
          else .changed uri (timesShown uri documents + 1) d.2) := by
      rw [notification?, named]
      rfl
    rw [grown, lifetime, List.mapIdx_concat, length_textsShown, message, lifetime]
    congr 1
    split <;> simp [about, Outgoing.uri?]
  · have same : textsShown uri (documents ++ [d]) = textsShown uri documents := by
      simp [textsShown, named]
    have silent : about uri (notification? language documents d).toList = [] := by
      cases other : Uri.ofPath? d.1 with
      | none => simp [notification?, other, about]
      | some name =>
          have ne : name ≠ uri := fun same => named (same ▸ other)
          rw [notification?, other, Option.map_some]
          split <;> simp [about, Outgoing.uri?, ne]
    rw [same, silent, List.append_nil]

/-- **The messages about a document are its life**, whatever else is shown. -/
theorem about_notifications (uri language : String) (documents : List (String × String)) :
    about uri (notifications language documents) =
      lifetime uri language (textsShown uri documents) := by
  -- by the last call, since the message for a call depends on those before it
  induction documents using List.reverseRecOn with
  | nil => rfl
  | append_singleton documents last ih =>
      rw [notifications_snoc, about_append, ih, about_notification?]

theorem about_script (uri : String) (c : Client) (documents : List (String × String))
    (isShutDown : Bool) : about uri (script c documents isShutDown) =
      lifetime uri c.language (textsShown uri documents) := by
  have greeting : about uri [.hello 1 c.process c.root, .initialized] = [] :=
    about_eq_nil rfl
  have farewell : about uri (if isShutDown then [.shutdown 2, .exit] else []) = [] :=
    about_eq_nil (by cases isShutDown <;> rfl)
  have parts : script c documents isShutDown = [.hello 1 c.process c.root, .initialized] ++
      (notifications c.language documents ++ if isShutDown then [.shutdown 2, .exit] else []) := rfl
  rw [parts, about_append, about_append, greeting, farewell, about_notifications, List.nil_append,
    List.append_nil]

/-- The versions in the life of a document count the calls. -/
theorem version?_of_mem_lifetime {texts : List String} {m : Outgoing}
    (member : m ∈ lifetime uri language texts) : ∃ v ≤ texts.length, m.version? = some v := by
  obtain ⟨k, short, rfl⟩ := List.mem_mapIdx.mp member
  by_cases first : k = 0
  · rw [if_pos first]
    exact ⟨1, by omega, rfl⟩
  · rw [if_neg first]
    exact ⟨k + 1, short, rfl⟩

/-- A document is opened first. -/
theorem lifetime_head {texts : List String} {m : Outgoing} {rest : List Outgoing}
    (begun : m :: rest <+: lifetime uri language texts) :
    ∃ text, m = .opened uri language 1 text := by
  cases texts with
  | nil => simp [lifetime] at begun
  | cons text texts =>
      rw [lifetime, List.mapIdx_cons] at begun
      exact ⟨text, (List.cons_prefix_cons.mp begun).1⟩

namespace Link

variable {c : Client} {l l' l₀ : Link} {h : History} {d : Deed}

/-- The message about a document for which the caller waits for a place in the queue. -/
def due (l : Link) : List Outgoing :=
  match l.caller with
  | .showing m => [m]
  | _ => []

/-- What was said about a document, and is about to be said, is its life so far. -/
def Synchronised (c : Client) (l : Link) (h : History) : Prop :=
  ∀ uri, about uri h.queued ++ about uri l.due =
    lifetime uri c.language (textsShown uri h.documents)

theorem synchronised_start (c : Client) : Synchronised c (.start c) [] := fun _ => rfl

/-- A deed that does not concern documents. -/
theorem Synchronised.congr (synchronised : l.Synchronised c h) (due : l'.due = l.due)
    (unasked : d.documents = []) (others : d.queued.filterMap Outgoing.uri? = []) :
    l'.Synchronised c (h ++ [d]) := by
  intro uri
  rw [History.queued_snoc, about_append, about_eq_nil others, List.append_nil, due,
    History.documents_snoc, unasked, List.append_nil]
  exact synchronised uri

/-- What the caller puts into the queue was due, if it shows a document. -/
theorem about_due_of_parcel {i : Item} {next : Caller} (uri : String)
    (parcel : l.parcel? = some (i, next)) :
    about uri l.due =
      about uri i.message?.toList ++ about uri (due { l.enqueue i with caller := next }) := by
  unfold parcel? at parcel
  split at parcel <;> cases parcel <;> rename_i at_caller <;> simp only [due, at_caller]
  · rename_i call id
    cases call <;> rfl
  · rfl
  · exact (List.append_nil _).symm
  · rfl
  · rfl

theorem giveUp_due (l : Link) (call : Call) (id : Nat) (f : Failure) :
    (l.giveUp call id f).due = [] := by
  cases call <;> rfl

/-- The caller finds the queue closed, but not for a document. -/
theorem turnedAway_due {i : Item} {next : Caller} (parcel : l.parcel? = some (i, next))
    (taken : l.turnedAway.caller ≠ .idle (.error .writerClosed)) : l.turnedAway.due = l.due := by
  unfold parcel? at parcel
  unfold turnedAway at taken ⊢
  split at parcel <;> cases parcel <;> rename_i at_caller <;>
    simp only [at_caller] at taken ⊢
  · rw [giveUp_due, due, at_caller]
  · simp only [due, at_caller]
    rfl
  · exact absurd rfl taken
  · simp only [due, at_caller]
  · simp only [due, at_caller]

/-- **A deed keeps a document synchronised**, unless it turns one away. -/
theorem Does.synchronised (does : l.Does d l') (speech : l.Speech c h)
    (taken : l'.caller ≠ .idle (.error .writerClosed)) (synchronised : l.Synchronised c h) :
    l'.Synchronised c (h ++ [d]) := by
  -- A document gets due with a call and goes into the queue with a deed of the caller. All other
  -- deeds leave what is due alone and put nothing about a document into the queue.
  cases does with
  | @put i next parcel place =>
      -- what was due goes into the queue
      intro uri
      have unasked : Deed.documents (.puts i) = [] := rfl
      rw [History.queued_snoc, about_append, queued_puts, List.append_assoc,
        ← about_due_of_parcel uri parcel, History.documents_snoc, unasked, List.append_nil]
      exact synchronised uri
  | turnAway parcel ended =>
      exact synchronised.congr (turnedAway_due parcel taken) rfl rfl
  | @learn call id body waits answer =>
      have silent : l.due = [] := by rw [due, waits]
      refine synchronised.congr ?_ rfl rfl
      unfold answered
      rw [silent]
      split <;> rfl
  | orphan waits silent dropped =>
      exact synchronised.congr (by rw [giveUp_due, due, waits]) rfl rfl
  | timeOut waits silent registered =>
      exact synchronised.congr (by rw [giveUp_due, due, waits]) rfl rfl
  | reap waits dead => exact synchronised.congr (by rw [due, due, waits]) rfl rfl
  | kill waits alive => exact synchronised.congr (by rw [due, due, waits]) rfl rfl
  | join waits ended => exact synchronised.congr (by rw [due, due, waits]) rfl rfl
  | take idle first => exact synchronised.congr rfl rfl rfl
  | flush done => exact synchronised.congr rfl rfl rfl
  | write writing more intact room => exact synchronised.congr rfl rfl rfl
  | breakOff writing more broken => exact synchronised.congr rfl rfl rfl
  | quit idle released => exact synchronised.congr rfl rfl rfl
  | report listens pulled =>
      obtain ⟨pending, answer, reader, output, events, same⟩ := report_shape l _ _
      rw [same]
      exact synchronised.congr rfl rfl rfl
  | readOn listens more pulled => exact synchronised.congr rfl rfl rfl
  | endOfStream listens empty closed clean => exact synchronised.congr rfl rfl rfl
  | cutShort listens empty closed cut =>
      obtain ⟨pending, answer, reader, output, events, same⟩ := report_shape l _ _
      rw [same]
      exact synchronised.congr rfl rfl rfl
  | refuse refusing place => exact synchronised.congr rfl rfl rfl
  | dropRefusal refusing ended => exact synchronised.congr rfl rfl rfl
  | server m moved =>
      obtain ⟨input, output, alive, rfl⟩ := move?_shape moved
      exact synchronised.congr rfl rfl rfl
  | openDocument idle path text =>
      -- nothing was due before the call, and the message for it is due now
      intro uri
      have silent : l.due = [] := by rw [due, idle]
      have asked : (l.openDocument path text).due =
          (notification? c.language h.documents (path, text)).toList := by
        rw [due, (speech.versions.openDocument path text).2, speech.client_eq]
        cases notification? c.language h.documents (path, text) <;> rfl
      have before := synchronised uri
      have nothing : about uri [] = [] := rfl
      rw [silent, nothing, List.append_nil] at before
      simp only [History.queued_snoc, Deed.queued, List.append_nil, History.documents_snoc,
        Deed.documents]
      rw [about_notification?, asked, before]
  | shutdown idle => exact synchronised.congr (by rw [due, due, idle]; rfl) rfl rfl

/-- `Accepts l₀ h l`: in the course of `h` no document was turned away. -/
inductive Accepts (l₀ : Link) : History → Link → Prop
  | nil : Accepts l₀ [] l₀
  | snoc {h : History} {d : Deed} {l l' : Link} (past : Accepts l₀ h l) (does : l.Does d l')
      (taken : l'.caller ≠ .idle (.error .writerClosed)) : Accepts l₀ (h ++ [d]) l'

theorem Accepts.course (accepts : Accepts l₀ h l) : Course l₀ h l := by
  induction accepts with
  | nil => exact .nil
  | snoc _ does _ ih => exact ih.snoc does

/-- **A run that turns no document away keeps every document synchronised.** -/
theorem Accepts.synchronised (accepts : Accepts (.start c) h l) : l.Synchronised c h := by
  induction accepts with
  | nil => exact synchronised_start c
  | snoc past does taken ih => exact does.synchronised past.course.speech taken ih

/-- **Whatever happens, the messages about a document are a beginning of its life.** -/
theorem Speech.about_queued (speech : l.Speech c h) (uri : String) :
    about uri h.queued <+: lifetime uri c.language (textsShown uri h.documents) := by
  have begun : about uri (own h.queued) <+: about uri (script c h.documents h.isShutDown) :=
    speech.beginning.filter _
  rwa [about_own, about_script] at begun

/-- The versions that are shown count the calls. -/
theorem Speech.version_le (speech : l.Speech c h) {m : Outgoing} {version : Nat}
    (queued : m ∈ h.queued) (shows : m.version? = some version) :
    version ≤ h.documents.length := by
  obtain ⟨uri, named⟩ : ∃ uri, m.uri? = some uri := by
    cases m <;> first | exact ⟨_, rfl⟩ | cases shows
  have member : m ∈ about uri h.queued := List.mem_filter.mpr ⟨queued, by simp [named]⟩
  obtain ⟨v, counted, same⟩ := version?_of_mem_lifetime ((speech.about_queued uri).subset member)
  cases shows.symm.trans same
  rw [length_textsShown] at counted
  exact Nat.le_trans counted List.countP_le_length

/-- The documents that were opened are those that have a version. -/
theorem Versions.opened_iff {documents : List (String × String)} (versions : l.Versions documents)
    (uri : String) : uri ∈ l.documents.opened ↔ uri ∈ l.documents.versions.map Prod.fst := by
  have named : (l.version? uri).isSome ↔ uri ∈ l.documents.versions.map Prod.fst := by
    rw [version?, List.lookup_isSome_iff, List.mem_map]
    exact exists_congr fun p => and_congr_right fun _ => by rw [beq_iff_eq, eq_comm]
  rw [(versions uri).1, ← named, (versions uri).2]
  by_cases never : timesShown uri documents = 0 <;> simp [never]

/-- So do the versions that are noted. -/
theorem Versions.version_le {documents : List (String × String)} (versions : l.Versions documents)
    {uri : String} {version : Nat} (noted : l.version? uri = some version) :
    version ≤ documents.length := by
  rw [(versions uri).2] at noted
  split at noted <;> cases noted
  exact List.countP_le_length

end Link

end Gatekeeper.Server
