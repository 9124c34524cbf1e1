import Gatekeeper.Proofs.Server.Drive
import Gatekeeper.Proofs.Server.Script
import Gatekeeper.Server.Fleet
import Mathlib.Data.List.Forall2

set_option autoImplicit false

/-!
# Showing a document

A call to show a document puts one message into the queue, or it fails and puts nothing there
(`Link.Showing`), whatever else happens in the meantime (`Link.Course.showing`). On a machine the
call goes to the server of one session, and the other servers are as before
(`Fleet.openDocument_showed`).
-/

namespace Gatekeeper.Server

/-- The message shows the document with the path and the text. -/
def Outgoing.Shows (path text : String) (m : Outgoing) : Prop :=
  ∃ uri, Uri.ofPath? path = some uri ∧
    ((∃ language, m = .opened uri language 1 text) ∨ ∃ version, m = .changed uri version text)

theorem Outgoing.Shows.isRefusal {path text : String} {m : Outgoing} (shows : m.Shows path text) :
    m.isRefusal = false := by
  obtain ⟨uri, _, ⟨language, rfl⟩ | ⟨version, rfl⟩⟩ := shows <;> rfl

namespace Link

/-- How far a call to show a document has come: where the caller is, and what the client has said of
its own accord since the call. -/
inductive Showing (path text : String) : Caller → List Outgoing → Prop
  /-- The call goes on: there is no place in the queue yet. -/
  | waits {m : Outgoing} (shows : m.Shows path text) : Showing path text (.showing m) []
  /-- The call is over, and the document was shown. -/
  | shown {m : Outgoing} (shows : m.Shows path text) : Showing path text (.idle (.ok ())) [m]
  /-- The call is over, and nothing was said. -/
  | failed (f : Failure) : Showing path text (.idle (.error f)) []

variable {path text : String} {l l' : Link} {h k : History} {d : Deed}

/-- A call begins with nothing said. -/
theorem showing_openDocument (l : Link) (path text : String) :
    Showing path text (l.openDocument path text).caller [] := by
  unfold openDocument
  split
  next => exact .failed _
  next uri named =>
    split
    · exact .waits ⟨uri, named, .inr ⟨_, rfl⟩⟩
    · exact .waits ⟨uri, named, .inl ⟨_, rfl⟩⟩

/-- At most the document is shown. -/
theorem Showing.said_cases {caller : Caller} {said : List Outgoing}
    (showing : Showing path text caller said) :
    said = [] ∨ ∃ m : Outgoing, m.Shows path text ∧ said = [m] := by
  cases showing with
  | waits shows => exact .inl rfl
  | shown shows => exact .inr ⟨_, shows, rfl⟩
  | failed f => exact .inl rfl

/-- Nobody but the caller goes on. -/
theorem Showing.quiet (showing : Showing path text l.caller (own h.queued))
    (caller : l'.caller = l.caller) (silent : own d.queued = []) :
    Showing path text l'.caller (own (h ++ [d]).queued) := by
  rwa [caller, History.queued_snoc, own_append, silent, List.append_nil]

/-- In a call to show a document the caller waits for nothing but a place in the queue. -/
theorem Showing.parcel {said : List Outgoing} {i : Item} {next : Caller}
    (showing : Showing path text l.caller said) (parcel : l.parcel? = some (i, next)) :
    said = [] ∧ ∃ m : Outgoing, m.Shows path text ∧ l.caller = .showing m ∧ i = .message m ∧
      next = .idle (.ok ()) := by
  unfold parcel? at parcel
  cases at_caller : l.caller with
  | showing m =>
      rw [at_caller] at showing parcel
      cases showing with
      | waits shows =>
          cases parcel
          exact ⟨rfl, m, shows, rfl, rfl, rfl⟩
  | _ =>
      rw [at_caller] at showing parcel
      cases showing <;> cases parcel

/-- **A deed that is not a call goes on with the call**, or with something else. -/
theorem Does.showing (does : l.Does d l') (uncalled : d.isCall = false)
    (showing : Showing path text l.caller (own h.queued)) :
    Showing path text l'.caller (own (h ++ [d]).queued) := by
  have no_wait {caller : Caller} (at_caller : l.caller = caller) :
      Showing path text caller (own h.queued) := at_caller ▸ showing
  cases does with
  | @put i next parcel place =>
      obtain ⟨nothing, m, shows, -, rfl, rfl⟩ := showing.parcel parcel
      rw [History.queued_snoc, own_append, nothing, List.nil_append]
      exact own_singleton shows.isRefusal ▸ .shown shows
  | turnAway parcel ended =>
      obtain ⟨nothing, m, -, at_caller, -, -⟩ := showing.parcel parcel
      have silent : own (h ++ [Deed.passes]).queued = [] := by
        rw [History.queued_snoc, own_append, nothing]
        rfl
      rw [silent, turnedAway, at_caller]
      exact .failed _
  | learn waits answer => cases no_wait waits
  | orphan waits silent dropped => cases no_wait waits
  | timeOut waits silent registered => cases no_wait waits
  | reap waits dead => cases no_wait waits
  | kill waits alive => cases no_wait waits
  | join waits ended => cases no_wait waits
  | report listens pulled =>
      obtain ⟨pending, answer, reader, output, events, same⟩ := report_shape l _ _
      rw [same]
      exact showing.quiet rfl rfl
  | cutShort listens empty closed cut =>
      obtain ⟨pending, answer, reader, output, events, same⟩ := report_shape l _ _
      rw [same]
      exact showing.quiet rfl rfl
  | server m moved =>
      obtain ⟨input, output, alive, rfl⟩ := move?_shape moved
      exact showing.quiet rfl rfl
  | openDocument idle path text => cases uncalled
  | shutdown idle => cases uncalled
  | _ => exact showing.quiet rfl rfl

/-- **Whatever happens after a call**, the document is shown once, or not at all. -/
theorem Course.showing (run : Course (l.openDocument path text) h l') (uncalled : h.IsUncalled) :
    Showing path text l'.caller (own h.queued) := by
  induction run with
  | nil => exact showing_openDocument l path text
  | snoc past does ih =>
      have uncalled' := uncalled _ (List.mem_append_right _ (List.mem_singleton_self _))
      exact does.showing uncalled' (ih fun d member => uncalled d (List.mem_append_left _ member))

end Link

namespace Fleet

/-! ## One server of many -/

variable {α : Type} {session : Session.Id} {default : α} {act : Exchange → α × Exchange}

/-- What is done with the server of a session, as it is left. -/
def actOn (session : Session.Id) (act : Exchange → α × Exchange) (l : Launch) : Launch :=
  if l.session = session then { l with exchange := (act l.exchange).2.takeEvents.2 } else l

/-- **Only the servers of the session have something done to them**, and the result of the latest
counts. -/
theorem withServer_eq (f : Fleet) (session : Session.Id) (default : α)
    (act : Exchange → α × Exchange) : ∃ inbox,
    f.withServer session default act =
      (((f.launches.find? (·.session = session)).map fun l => (act l.exchange).1).getD default,
        { f with launches := f.launches.map (actOn session act), inbox }) := by
  let step := fun (l : Launch) (acc : List Launch × Option α × Fleet) =>
    if l.session = session then
      ({ l with exchange := (acc.2.2.collect (act l.exchange).2).1 } :: acc.1,
        some (act l.exchange).1, (acc.2.2.collect (act l.exchange).2).2)
    else (l :: acc.1, acc.2)
  -- the fold passes the servers from the last to the first: it changes those of the session, and
  -- the result of the first of them is the one that stays
  have folded (ls : List Launch) : ∃ inbox, ls.foldr step ([], none, f) =
      (ls.map (actOn session act),
        (ls.find? (·.session = session)).map fun l => (act l.exchange).1, { f with inbox }) := by
    induction ls with
    | nil => exact ⟨f.inbox, rfl⟩
    | cons l ls ih =>
        obtain ⟨inbox, done⟩ := ih
        rw [List.foldr_cons, done, List.map_cons, actOn]
        by_cases held : l.session = session
        · rw [List.find?_cons_of_pos (by simpa using held), if_pos held]
          exact ⟨_, if_pos held⟩
        · rw [List.find?_cons_of_neg (by simpa using held), if_neg held]
          exact ⟨_, if_neg held⟩
  obtain ⟨inbox, done⟩ := folded f.launches
  have unfolded : f.withServer session default act =
      ((f.launches.foldr step ([], none, f)).2.1.getD default,
        { (f.launches.foldr step ([], none, f)).2.2 with
          launches := (f.launches.foldr step ([], none, f)).1 }) := rfl
  rw [unfolded, done]
  exact ⟨inbox, rfl⟩

/-! ## The document -/

/-- What becomes of the server of a session in a call to show a document: since the call nothing was
said to it of the client's own accord but at most the one message that shows the document, and when
the call is over, it went well (`accepted`) if the message was said. -/
def Held (path text : String) (accepted : Bool) (l l' : Launch) : Prop :=
  ∃ h m, Link.Course (l.exchange.link.openDocument path text) h m ∧ h.IsUncalled ∧
    l'.exchange.link = { m with events := [] } ∧
    (own h.queued = [] ∨ ∃ shown : Outgoing, shown.Shows path text ∧ own h.queued = [shown]) ∧
    (m.isResting → (accepted = true ↔ own h.queued ≠ []))

/-- A call to show a document to the server of a session has made `f'` of the servers `f` of a
machine, and `accepted` says whether it went well. -/
structure Showed (session : Session.Id) (path text : String) (f : Fleet) (accepted : Bool)
    (f' : Fleet) : Prop where
  world : f'.world = f.world
  probes : f'.probes = f.probes
  /-- The servers of other sessions are left alone. -/
  others : List.Forall₂ (fun l l' => l.session ≠ session → l' = l) f.launches f'.launches
  held : ∀ l, f.launches.find? (·.session = session) = some l →
    ∃ l', f'.launches.find? (·.session = session) = some l' ∧ Held path text accepted l l'

/-- What the controller is told of a call to show a document. -/
def accepts : Except Failure Unit → Bool
  | .ok () => true
  | .error _ => false

/-- When the call is over, what came of it is known. -/
theorem accepts_sent {path text : String} {x : Exchange} {said : List Outgoing}
    (showing : Link.Showing path text x.link.caller said) (rests : x.link.isResting) :
    accepts x.sent = true ↔ said ≠ [] := by
  unfold Link.isResting at rests
  unfold Exchange.sent
  generalize x.link.caller = caller at showing rests
  cases showing with
  | waits shows => cases rests
  | shown shows => simp [accepts]
  | failed f => simp [accepts]

/-- **A document is shown to the server of one session**, or to none. -/
theorem openDocument_showed (f : Fleet) (session : Session.Id) (path text : String) :
    Showed session path text f (accepts (f.openDocument session path text).1)
      (f.openDocument session path text).2 := by
  let act := fun x : Exchange => ((x.openDocument path text).sent, x.openDocument path text)
  obtain ⟨inbox, called⟩ := withServer_eq f session (.ok ()) act
  have called' : f.openDocument session path text = _ := called
  rw [called']
  refine ⟨rfl, rfl, ?_, fun l found => ?_⟩
  · rw [List.forall₂_map_right_iff]
    exact List.forall₂_same.mpr fun l _ other => if_neg other
  · have mine : l.session = session := by simpa using List.find?_some found
    have found' : (f.launches.map (actOn session act)).find? (·.session = session) =
        some (actOn session act l) := by
      have kept (l : Launch) : (actOn session act l).session = l.session := by
        unfold actOn
        split <;> rfl
      rw [List.find?_map]
      simp only [Function.comp_def, kept, found, Option.map_some]
    obtain ⟨h, run, uncalled⟩ := Exchange.drive_reaches Exchange.callSteps
      { l.exchange with link := l.exchange.link.openDocument path text }
    have showing := run.showing uncalled
    refine ⟨_, found', h, _, run, uncalled, by rw [actOn, if_pos mine]; rfl, showing.said_cases, ?_⟩
    intro rests
    rw [found]
    exact accepts_sent showing rests

end Fleet

end Gatekeeper.Server
