import Gatekeeper.Proofs.Server.Extension
import Gatekeeper.Proofs.Server.Showing
import Gatekeeper.Proofs.Session.Performance
import Gatekeeper.Session.Live

set_option autoImplicit false

/-!
# Documents reach the held server

The operation that shows a document hands it to the server that is held, if the document's extension
is configured, and changes nothing else: the controller is the same before and after it, however
many operations overlap (`Performance.openDocument_eq`, `Running.run_openDocument`).

Main statement: `documents_reach_the_held_server`.
-/

namespace Gatekeeper.Session

open Server

variable {path text : String}

/-- **A document is handed on, and the controller stays as it is**, whatever the parts answer. -/
theorem Performance.openDocument_eq {settings : Settings} {n : Controller}
    {xs : List Session.Exchange} {t : Turn}
    (performed : Performance settings n (.openDocument path text) xs t) :
    t.state = n ∧ t.effects = [] ∧
      match n.server with
      | none => xs = [] ∧ t.progress = .finished (.value false)
      | some session =>
        (xs = [] ∧ t.progress = .waiting (.opening session path text)) ∨
          ∃ accepted : Bool, xs = [⟨.opening session path text, accepted⟩] ∧
            t.progress = .finished (.value accepted) := by
  induction performed with
  | begin s =>
      rw [Controller.begin]
      cases n.server with
      | none => exact ⟨rfl, rfl, rfl, rfl⟩
      | some session => exact ⟨rfl, rfl, .inl ⟨rfl, rfl⟩⟩
  | @resume xs t stage past waits s a ih =>
      obtain ⟨state, effects, progress⟩ := t
      obtain ⟨rfl, rfl, asked⟩ := ih
      obtain rfl : progress = .waiting stage := waits
      cases held : state.server with
      | none =>
          rw [held] at asked
          cases asked.2
      | some session =>
          rw [held] at asked
          rcases asked with ⟨rfl, same⟩ | ⟨_, _, ended⟩
          · cases same
            exact ⟨rfl, rfl, .inr ⟨a, rfl, rfl⟩⟩
          · cases ended

namespace Running

variable {σ : Type} (p : Parts σ) (settings : Settings) (r : Running σ)

/-- A document that is not to be shown is not, and where no server is held there is none to show it
to. -/
theorem run_openDocument_of_unasked (path text : String)
    (unasked : (p.surroundings r.parts).handles path = false ∨ r.controller.server = none) :
    r.run p settings (.openDocument path text) = (r, .value false) := by
  rw [run, Operation.accept]
  cases handled : (p.surroundings r.parts).handles path with
  | false => rfl
  | true =>
      have free : r.controller.server = none := by simpa [handled] using unasked
      simp only [if_true, List.foldl_nil, perform, Controller.begin, free, Controller.finish,
        settle, drive]

/-- **The held server is asked**, and what it answers is the result. -/
theorem run_openDocument {session : Id} (path text : String)
    (handled : (p.surroundings r.parts).handles path = true)
    (held : r.controller.server = some session) :
    r.run p settings (.openDocument path text) =
      (⟨r.controller, (p.answer r.parts r.controller.published (.opening session path text)).2⟩,
        .value (p.answer r.parts r.controller.published (.opening session path text)).1) := by
  rw [run, Operation.accept, if_pos handled]
  simp only [List.foldl_nil, perform, Controller.begin, held, Controller.wait, settle, drive,
    Controller.resume, Controller.finish]

end Running

/-- **On a machine the held server is the one of its session**, and the other servers are left
alone. -/
theorem Live.answer_opening (l : Live) (status : Status) (session : Id) (path text : String) :
    ∃ fleet, (Live.parts.answer l status (.opening session path text)).2 = { l with fleet } ∧
      Fleet.Showed session path text l.fleet
        (Live.parts.answer l status (.opening session path text)).1 fleet :=
  ⟨_, rfl, Fleet.openDocument_showed l.fleet session path text⟩

/-- **Documents reach the server when they should.** Let the extensions of the documents be
configured in whatever way.

* A document is to be shown if and only if the last component of its path has a configured
  extension, and it makes no difference with how many more dots, or in which case, the extensions
  are written.
* In every state of the controller, and with whatever parts, the operation that shows a document has
  the result *true* if and only if the document is to be shown, a server is held, and that server
  accepts it. If the document is to be shown and a server is held, that server is asked, with the
  path and the text; if not, no part is asked for anything. The controller stays as it is.
* A document that is not to be shown does not wait for the controller. One that is waits for its
  turn, and whichever other operations there are, the state in which it gets the controller is the
  state in which it leaves it; it has no effects, and asks only the server that is held then.
* On a machine the server that is asked is that of the session, and the servers of other sessions
  are left alone. When the call is over, the one message that shows the document was put into its
  queue if the server accepted, and nothing if it did not. -/
theorem documents_reach_the_held_server (spec : LaunchSpec) (extensions : List String) :
    (∀ path, (spec.withExtensions extensions).handles path = true ↔ Configured extensions path) ∧
    (∀ extensions', List.Forall₂ Respelled extensions extensions' → ∀ path,
      (spec.withExtensions extensions').handles path =
        (spec.withExtensions extensions).handles path) ∧
    (∀ {σ : Type} (p : Parts σ) (settings : Settings) (r : Running σ) (path text : String),
      (p.surroundings r.parts).handles = (spec.withExtensions extensions).handles →
      let out := r.run p settings (.openDocument path text)
      let asked (session : Id) : Bool × σ :=
        p.answer r.parts r.controller.published (.opening session path text)
      out.1.controller = r.controller ∧
      (out.2 = .value true ∨ out.2 = .value false) ∧
      (out.2 = .value true ↔ Configured extensions path ∧
        ∃ session, r.controller.server = some session ∧ (asked session).1 = true) ∧
      (∀ session, Configured extensions path → r.controller.server = some session →
        out.1.parts = (asked session).2) ∧
      (¬ Configured extensions path ∨ r.controller.server = none → out.1.parts = r.parts)) ∧
    (∀ (s : Surroundings) (path text : String),
      s.handles = (spec.withExtensions extensions).handles →
      (¬ Configured extensions path →
        (Operation.openDocument path text).accept s = ([], .inl (.value false))) ∧
      (Configured extensions path →
        (Operation.openDocument path text).accept s = ([], .inr (.openDocument path text)))) ∧
    (∀ {settings : Settings} {n : Controller} {path text : String} {xs : List Session.Exchange}
      {t : Turn}, Performance settings n (.openDocument path text) xs t →
      t.state = n ∧ t.effects = [] ∧
        match n.server with
        | none => xs = [] ∧ t.progress = .finished (.value false)
        | some session =>
          (xs = [] ∧ t.progress = .waiting (.opening session path text)) ∨
            ∃ accepted : Bool, xs = [⟨.opening session path text, accepted⟩] ∧
              t.progress = .finished (.value accepted)) ∧
    ∀ (l : Live) (status : Status) (session : Id) (path text : String),
      ∃ fleet, (Live.parts.answer l status (.opening session path text)).2 = { l with fleet } ∧
        Fleet.Showed session path text l.fleet
          (Live.parts.answer l status (.opening session path text)).1 fleet := by
  have rule (path : String) :
      (spec.withExtensions extensions).handles path = true ↔ Configured extensions path :=
    LaunchSpec.handles_iff
  have other {path : String} (unlisted : ¬ Configured extensions path) :
      (spec.withExtensions extensions).handles path = false :=
    Bool.eq_false_iff.mpr fun handled => unlisted ((rule path).mp handled)
  refine ⟨rule, fun extensions' same path => ?_, fun p settings r path text sees => ?_,
    fun s path text sees => ⟨fun unlisted => ?_, fun listed => ?_⟩,
    fun performed => performed.openDocument_eq, Live.answer_opening⟩
  · rw [Bool.eq_iff_iff, rule, LaunchSpec.handles_iff, LaunchSpec.configured_respelled same]
  · intro out asked
    by_cases due : Configured extensions path ∧ r.controller.server ≠ none
    · obtain ⟨listed, held⟩ := due
      obtain ⟨session, held⟩ := Option.ne_none_iff_exists'.mp held
      have handled : (p.surroundings r.parts).handles path = true := by
        rw [sees]
        exact (rule path).mpr listed
      have run : out = (⟨r.controller, (asked session).2⟩, .value (asked session).1) :=
        r.run_openDocument p settings path text handled held
      rw [run]
      refine ⟨rfl, ?_, ?_, fun session' _ held' => ?_, fun undue => ?_⟩
      · cases (asked session).1 <;> simp
      · simp [listed, held]
      · cases held.symm.trans held'
        rfl
      · exact absurd undue (by simp [listed, held])
    · have unasked : (p.surroundings r.parts).handles path = false ∨
          r.controller.server = none := by
        rw [sees]
        by_cases listed : Configured extensions path
        · exact .inr (by simpa [listed] using due)
        · exact .inl (other listed)
      have run : out = (r, .value false) :=
        r.run_openDocument_of_unasked p settings path text unasked
      rw [run]
      refine ⟨rfl, .inr rfl, ⟨nofun, fun ⟨listed, session, held, _⟩ => ?_⟩,
        fun session listed held => ?_, fun _ => rfl⟩
      · exact absurd ⟨listed, by simp [held]⟩ due
      · exact absurd ⟨listed, by simp [held]⟩ due
  · rw [Operation.accept, sees, other unlisted]
    rfl
  · rw [Operation.accept, sees, (rule path).mpr listed]
    rfl

/-- Parts that keep the documents that are handed to the server, and accept those with a text. -/
def bookkeeping (handles : String → Bool) : Parts (List (Id × String × String)) where
  surroundings _ := ⟨true, none, id, handles⟩
  note shown _ := shown
  answer shown _
    | .verifying _ _ => (.compatible [], shown)
    | .stopping _ _ => ((), shown)
    | .launching _ _ => (.ok (), shown)
    | .opening session path text => (text != "", (session, path, text) :: shown)

/-- Extensions with dots and in capitals, a file with two dots in its name, one that begins with its
only dot, and a server that does not accept a document. -/
theorem documents_reach_the_held_server_dotted :
    let extensions := [".CFG", "..", "ini"]
    let extensions' := ["..cFg", "...", ".INI"]
    let spec : LaunchSpec := { root := "/" }
    let p := bookkeeping (spec.withExtensions extensions).handles
    let r : Running (List (Id × String × String)) :=
      ⟨{ phase := .running, server := some ⟨7⟩, next := ⟨8⟩ }, []⟩
    List.Forall₂ Respelled extensions extensions' ∧
      (spec.withExtensions extensions').handles "/a/b.x.Cfg" = true ∧
      (r.run p {} (.openDocument "/a/b.x.Cfg" "t")).1.parts = [(⟨7⟩, "/a/b.x.Cfg", "t")] ∧
      (r.run p {} (.openDocument "/a/b.x.Cfg" "t")).2 = .value true ∧
      (r.run p {} (.openDocument "/a/b.x.Cfg" "")).2 ≠ .value true ∧
      (r.run p {} (.openDocument "/a/.cfg" "t")).1.parts = [] := by
  intro extensions extensions' spec p r
  have respelled : List.Forall₂ Respelled extensions extensions' :=
    .cons ⟨1, ".cFg".toList, by decide, by decide⟩
      (.cons ⟨1, "..".toList, by decide, by decide⟩
        (.cons ⟨1, "INI".toList, by decide, by decide⟩ .nil))
  obtain ⟨rule, spelling, runs, -⟩ := documents_reach_the_held_server spec extensions
  have listed : Configured extensions "/a/b.x.Cfg" := (rule _).mp (by decide +kernel)
  have unlisted : ¬ Configured extensions "/a/.cfg" := fun listed =>
    absurd ((rule _).mpr listed) (by decide +kernel)
  obtain ⟨-, -, shown, handed, -⟩ := runs p {} r "/a/b.x.Cfg" "t" rfl
  obtain ⟨-, -, refused, -, -⟩ := runs p {} r "/a/b.x.Cfg" "" rfl
  obtain ⟨-, -, -, -, kept⟩ := runs p {} r "/a/.cfg" "t" rfl
  refine ⟨respelled, (spelling _ respelled _).trans ((rule _).mpr listed), ?_,
    shown.mpr ⟨listed, ⟨7⟩, rfl, rfl⟩, fun accepted => ?_, kept (.inl unlisted)⟩
  · rw [handed ⟨7⟩ listed rfl]
    rfl
  · obtain ⟨-, session, -, answer⟩ := refused.mp accepted
    have unaccepted : (("" : String) != "") = false := by decide
    exact absurd (unaccepted.symm.trans answer) (by decide)

end Gatekeeper.Session
