import Gatekeeper.Proofs.Server.Drive
import Gatekeeper.Proofs.Server.Lifetime
import Gatekeeper.Proofs.Session.Turn
import Gatekeeper.Session.Live

set_option autoImplicit false

/-!
# The server after a restart

A restart that is done has launched a server (`Session.Running.restart_hasLaunched`), and a server
that was just launched has been shown no document (`Server.Fleet.launch_fresh`). So each document
begins its life anew on it (`Session.documents_stay_synchronised`).
-/

namespace Gatekeeper.Server

open Link Machine

variable {c : Client} {l l' : Link} {h : History}

/-- A path without a URI is refused, and nothing else comes of it. -/
theorem Link.openDocument_of_noUri (l : Link) {path : String} (text : String)
    (unnamed : Uri.ofPath? path = none) :
    l.openDocument path text = { l with caller := .idle (.error (.noUri path)) } := by
  rw [openDocument, unnamed]

/-- The link to a server that has been started, and was not called for anything since. The events
may have been taken from it. -/
def Link.IsFresh (c : Client) (l : Link) : Prop :=
  ∃ h m, Course (.start c) h m ∧ h.IsUncalled ∧ l = { m with events := [] }

/-- **On a fresh link every document begins its life.** -/
theorem Link.IsFresh.about_queued (fresh : l.IsFresh c) (run : Course l h l') (uri : String) :
    about uri h.queued <+: lifetime uri l.client.language (textsShown uri h.documents) := by
  obtain ⟨k, m, start, uncalled, rfl⟩ := fresh
  have client : m.client = c := start.speech.client_eq
  have speech : Speech c { m with events := [] } k := start.speech.congr rfl rfl rfl rfl id
  -- nothing was said about a document before
  have silent : about uri k.queued = [] := by
    have begun := start.speech.about_queued uri
    rw [uncalled.documents_eq] at begun
    exact List.prefix_nil.mp begun
  have told := (speech.course run).about_queued uri
  rwa [History.queued_append, History.documents_append, about_append, silent, List.nil_append,
    uncalled.documents_eq, List.nil_append, ← client] at told

namespace Fleet

/-- **A server that was launched is fresh**, and has the session that it was launched for. -/
theorem launch_fresh {f f' : Fleet} {spec : LaunchSpec} {process : Nat} {session : Session.Id}
    {interpreter : String} (launched : f.launch spec process session interpreter = (.ok (), f')) :
    ∃ s rest, f'.launches = s :: rest ∧ s.session = session ∧
      s.exchange.link.IsFresh (client f'.world spec process session) := by
  unfold launch at launched
  dsimp only at launched
  split at launched
  · cases launched
  · rename_i cwd program image ready
    have same := congrArg Prod.snd launched
    subst same
    obtain ⟨h, run, uncalled⟩ := Exchange.start_course
      (client f.settle.world spec process session)
      (f.settle.part program cwd image interpreter spec.args).1
      (f.settle.part program cwd image interpreter spec.args).2
    exact ⟨_, _, rfl, rfl, h, _, run, uncalled, rfl⟩

/-- A launch goes well if there is a directory to run in and a program to run, and the handshake
does not fail. -/
theorem launch_ok {f : Fleet} {spec : LaunchSpec} {interpreter : String} {cwd program : Location}
    {image : Image} (process : Nat) (session : Session.Id) (settled : f.settle = f)
    (directory : workingDirectory f.world spec.root = .ok cwd)
    (loaded : f.world.load cwd interpreter spec.args = .ok (program, image))
    (up : (Exchange.start (client f.world spec process session)
      (f.part program cwd image interpreter spec.args).1
      (f.part program cwd image interpreter spec.args).2).startFailure? = none) :
    ∃ f', f.launch spec process session interpreter = (.ok (), f') := by
  rw [launch, settled]
  dsimp only
  rw [directory, Except.bind, loaded]
  dsimp only [Except.map]
  rw [up]
  exact ⟨_, rfl⟩

end Fleet

end Gatekeeper.Server

namespace Gatekeeper.Session

open Server

/-! ## What a restart comes to -/

/-- The operation can only be done with a server that has just come up. -/
def Progress.NeedsServer : Progress → Prop
  | .waiting (.verifying _ _) => True
  | .waiting (.launching _ _) => True
  | .waiting (.stopping _ .start) => True
  | .waiting (.stopping _ (.launch _)) => True
  | .waiting _ => False
  | .finished result => result ≠ .done

namespace Controller

variable (c : Controller) (s : Surroundings)

theorem start_needsServer : (c.start s).progress.NeedsServer := by
  rw [start]
  cases c.preferred.or s.active with
  | some candidate => trivial
  | none =>
      intro done
      cases done

theorem stop_needsServer {next : AfterStop} (launches : (c.afterStop s next).progress.NeedsServer)
    (waits : ∀ session, Progress.NeedsServer (.waiting (.stopping session next))) :
    (c.stop s next).progress.NeedsServer := by
  rw [stop]
  cases c.server with
  | some session => exact waits session
  | none => exact launches

/-- Such an operation goes on to the launch, or fails. -/
theorem resume_needsServer {stage : Stage} (needs : Progress.NeedsServer (.waiting stage))
    (before : ∀ session interpreter, stage ≠ .launching session interpreter)
    (a : stage.Answer) : (c.resume s stage a).progress.NeedsServer := by
  cases stage with
  | verifying candidate switching =>
      simp only [resume]
      split
      · exact stop_needsServer c s trivial fun _ => trivial
      · intro done
        cases done
  | stopping session next =>
      cases next with
      | start => exact start_needsServer _ s
      | launch interpreter => trivial
      | finish => exact needs.elim
      | deactivate => exact needs.elim
  | launching session interpreter => exact absurd rfl (before session interpreter)
  | opening session path text => exact needs.elim

end Controller

namespace Running

/-- The effects of a turn touch neither the servers nor the equipment. -/
theorem settle_keeps (l : Live) (t : Turn) : (settle Live.parts l t).parts.fleet = l.fleet ∧
    (settle Live.parts l t).parts.equipment = l.equipment := by
  rw [settle]
  induction t.effects generalizing l with
  | nil => exact ⟨rfl, rfl⟩
  | cons e effects ih =>
      rw [List.foldl_cons]
      obtain ⟨fleet, equipment⟩ := ih (Live.parts.note l e)
      cases e <;> exact ⟨fleet, equipment⟩

/-- The controller holds a server that has just been launched. -/
def HasLaunched (r : Running Live) : Prop :=
  ∃ (f : Fleet) (spec : LaunchSpec) (process : Nat) (session : Id) (interpreter : String),
    f.launch spec process session interpreter = (.ok (), r.parts.fleet) ∧
      r.controller.server = some session

theorem drive_finished {σ : Type} (p : Parts σ) (r : Running σ) (result : Result) :
    drive p r (.finished result) = (r, result) := by
  rw [drive]

/-- The answer to a launch is what comes of it on the machine. -/
theorem answer_launching {l : Live} {session : Id} {interpreter : String}
    {result : Except Failure Unit} {fleet : Fleet} (status : Status)
    (launched : l.fleet.launch l.equipment.spec l.equipment.process session interpreter =
      (result, fleet)) :
    Live.parts.answer l status (.launching session interpreter) =
      (Live.outcome result, { l with fleet }) := by
  change l.answer _ = _
  rw [Live.answer, launched]
  rfl

/-- The answer to a verification is the verdict on the machine. -/
theorem answer_verifying {l : Live} {candidate : String} {verdict : Verdict} {fleet : Fleet}
    (status : Status) (switching : Bool)
    (verified : l.fleet.verify candidate l.equipment.timeout l.equipment.requirements =
      (verdict, fleet)) :
    Live.parts.answer l status (.verifying candidate switching) =
      (verdict, { l with fleet }) := by
  change l.answer _ = _
  rw [Live.answer, verified]
  rfl

/-- A launch that goes well is done. -/
theorem drive_launching_ok (r : Running Live) {session : Id} {interpreter : String} (fleet : Fleet)
    (launched : r.parts.fleet.launch r.parts.equipment.spec r.parts.equipment.process session
      interpreter = (.ok (), fleet)) :
    (drive Live.parts r (.waiting (.launching session interpreter))).2 = .done := by
  rw [drive, answer_launching _ launched]
  simp only [Live.outcome, Controller.resume_launching_ok, drive_finished]

/-- A launch that is done has launched the server. -/
theorem drive_launching (r : Running Live) {session : Id} {interpreter : String}
    (done : (drive Live.parts r (.waiting (.launching session interpreter))).2 = .done) :
    HasLaunched (drive Live.parts r (.waiting (.launching session interpreter))).1 := by
  cases launched : r.parts.fleet.launch r.parts.equipment.spec r.parts.equipment.process session
      interpreter with
  | mk result fleet =>
      rw [drive, answer_launching _ launched] at done ⊢
      cases result with
      | ok _ =>
          simp only [Live.outcome, Controller.resume_launching_ok, drive_finished]
          refine ⟨r.parts.fleet, r.parts.equipment.spec, r.parts.equipment.process, session,
            interpreter, ?_, rfl⟩
          rw [(settle_keeps _ _).1]
          exact launched
      | error failure =>
          simp only [Live.outcome, Controller.resume_launching_error, drive_finished] at done
          cases done

/-- An operation that needs a server, and is done, has launched it last. -/
theorem drive_hasLaunched (r : Running Live) (progress : Progress) (needs : progress.NeedsServer)
    (done : (drive Live.parts r progress).2 = .done) :
    HasLaunched (drive Live.parts r progress).1 := by
  -- along the stages of the operation, until it comes to the launch
  induction r, progress using drive.induct Live.parts with
  | case1 r result =>
      rw [drive] at done
      exact absurd done needs
  | case2 r stage a world asked turn ih =>
      by_cases launching : ∃ session interpreter, stage = .launching session interpreter
      · obtain ⟨session, interpreter, rfl⟩ := launching
        exact drive_launching r done
      · have before : ∀ session interpreter, stage ≠ .launching session interpreter :=
          fun session interpreter same => launching ⟨session, interpreter, same⟩
        rw [drive] at done ⊢
        simp only [asked] at done ⊢
        exact ih (Controller.resume_needsServer _ _ needs before a) done

/-- **A restart that is done has launched a server**, which the controller holds. -/
theorem restart_hasLaunched {settings : Settings} {r r' : Running Live}
    (restarted : r.run Live.parts settings .restart = (r', .done)) : r'.HasLaunched := by
  have begun : (r.controller.begin settings (Live.parts.surroundings r.parts) .restart).progress
      |>.NeedsServer :=
    Controller.stop_needsServer _ _ (Controller.start_needsServer _ _) fun _ => trivial
  have launched := drive_hasLaunched (settle Live.parts r.parts
    (r.controller.begin settings (Live.parts.surroundings r.parts) .restart)) _ begun
  have same : r.run Live.parts settings .restart = drive Live.parts (settle Live.parts r.parts
      (r.controller.begin settings (Live.parts.surroundings r.parts) .restart))
      (r.controller.begin settings (Live.parts.surroundings r.parts) .restart).progress := rfl
  rw [← same, restarted] at launched
  exact launched rfl

/-- A restart is done if there is no server to stop, and the preferred interpreter is verified and
launched. -/
theorem restart_done {settings : Settings} {r : Running Live} {candidate : String}
    {verdict : Verdict} {verified launched : Fleet} (free : r.controller.server = none)
    (preferred : r.controller.preferred = some candidate)
    (verify : r.parts.fleet.verify candidate r.parts.equipment.timeout
      r.parts.equipment.requirements = (verdict, verified))
    (compatible : verdict.isCompatible = true)
    (launch : verified.launch r.parts.equipment.spec r.parts.equipment.process r.controller.next
      candidate = (.ok (), launched)) :
    ∃ r', r.run Live.parts settings .restart = (r', .done) := by
  have begun (s : Surroundings) : r.controller.begin settings s .restart =
      r.controller.wait (.verifying candidate false) := by
    rw [Controller.begin, Controller.stop, free]
    simp only [Controller.afterStop, Controller.start, preferred, Option.some_or]
  have goesOn (s : Surroundings) : r.controller.resume s (.verifying candidate false) verdict =
      r.controller.launch candidate := by
    simp only [Controller.resume, compatible, if_true, Controller.stop, free,
      Controller.afterStop]
  refine ⟨_, Prod.ext rfl ?_⟩
  change (drive Live.parts _ _).2 = _
  rw [begun]
  change (drive Live.parts r (.waiting (.verifying candidate false))).2 = _
  rw [drive, answer_verifying _ _ verify]
  simp only [goesOn]
  -- the verified interpreter is now launched, on the machine as the verification left it
  obtain ⟨fleet, equipment⟩ :=
    settle_keeps { r.parts with fleet := verified } (r.controller.launch candidate)
  refine drive_launching_ok _ launched ?_
  rw [fleet, equipment]
  exact launch

end Running

open Link Machine

/-! ## A machine with an interpreter -/

/-- A machine with one interpreter, which provides all that is required, namely nothing. -/
def plainWorld : World where
  disk := ⟨[(["p"], .file { bytes := [], executable := true })]⟩
  interpreters := [(["p"], {})]

/-- A controller on such a machine, before its first operation. -/
def plainSession : Running Live where
  controller := { preferred := some "/p" }
  parts := {
    equipment := { host := {}, spec := { root := "/" }, requirements := [] }
    fleet := { world := plainWorld } }

theorem plainWorld_find_interpreter : plainWorld.disk.find plainWorld.cwd "/p" true =
    .ok (.entry ["p"] (.file { bytes := [], executable := true })) := by
  have steps : Disk.steps "/p" = ["p"] := by decide +kernel
  have plain : "/p".toList.contains '\x00' = false := by decide +kernel
  have absolute : Path.isAbsolute "/p" = true := by decide +kernel
  rw [Disk.find, steps, plain, absolute]
  simp only [Disk.walk]
  rfl

theorem plainWorld_find_root :
    plainWorld.disk.find plainWorld.cwd "/" true = .ok (.entry [] (.dir true)) := by
  have steps : Disk.steps "/" = ["."] := by decide +kernel
  have plain : "/".toList.contains '\x00' = false := by decide +kernel
  have absolute : Path.isAbsolute "/" = true := by decide +kernel
  rw [Disk.find, steps, plain, absolute]
  simp only [Disk.walk]
  rfl

theorem plainWorld_load {args : List String}
    (plain : ("/p" :: args).any (fun s => s.toList.contains '\x00') = false) :
    plainWorld.load plainWorld.cwd "/p" args = .ok (["p"], .interpreter {}) := by
  have slash : "/p".toList.contains '/' = true := by decide +kernel
  have program : plainWorld.program plainWorld.cwd "/p" =
      .ok (["p"], { bytes := [], executable := true }) := by
    rw [World.program, plainWorld_find_interpreter]
    rfl
  rw [World.load, plain, World.lookUp, slash, program]
  rfl

theorem plainWorld_load_probe :
    plainWorld.load plainWorld.cwd "/p" (Probe.args []) = .ok (["p"], .interpreter {}) :=
  plainWorld_load (by decide +kernel)

theorem plainWorld_verify :
    plainWorld.verify "/p" 10000 [] = (.compatible [], [⟨"/p", Probe.args []⟩]) := by
  have there : plainWorld.disk.occupied plainWorld.cwd "/p" = true := by
    rw [Disk.occupied, Disk.entry?, plainWorld_find_interpreter]
    rfl
  have answer : plainWorld.answer ⟨"/p", Probe.args []⟩ = ⟨.ok ⟨true, some 0, "", ""⟩, 0⟩ := by
    rw [World.answer, World.time, plainWorld_load_probe]
    rfl
  rw [World.verify, Probe.verify, there]
  dsimp only
  rw [answer]
  rfl

/-- The interpreter can be launched on the machine. -/
theorem plainSession_restart :
    ∃ r, plainSession.run Live.parts {} .restart = (r, .done) := by
  let probed : Fleet := { world := plainWorld, probes := [(["p"], Probe.args [])] }
  have verified : plainSession.parts.fleet.verify "/p" 10000 [] = (.compatible [], probed) := by
    have runs : plainWorld.interpreterOf? ⟨"/p", Probe.args []⟩ = some ["p"] := by
      rw [World.interpreterOf?, plainWorld_load_probe]
    have settled : plainSession.parts.fleet.settle = { world := plainWorld } := rfl
    rw [Fleet.verify, settled]
    dsimp only
    rw [plainWorld_verify]
    simp only [List.filterMap_cons, runs]
    rfl
  obtain ⟨launched, launch⟩ : ∃ f, probed.launch { root := "/" } 0 ⟨1⟩ "/p" = (.ok (), f) := by
    have directory : Fleet.workingDirectory plainWorld "/" = .ok [] := by
      have plain : "/".toList.contains '\x00' = false := by decide +kernel
      rw [Fleet.workingDirectory, plain, plainWorld_find_root]
      rfl
    exact Fleet.launch_ok 0 ⟨1⟩ rfl directory (plainWorld_load (by decide +kernel))
      (by decide +kernel)
  exact Running.restart_done rfl rfl verified rfl launch

/-- A client opens a document, tries one without a URI, opens another one, and shows the first one
again. -/
theorem exists_accepted : ∃ h l, Accepts (.start simpleClient) h l ∧ due l = [] ∧
    h.documents = [("/a.cfg", "x"), ("a.cfg", "y"), ("/b.cfg", "y"), ("/a.cfg", "z")] := by
  have start : Accepts (.start simpleClient) [] (.start simpleClient) := .nil
  have greeted := start
    |>.snoc (@Does.put _ (.message (.hello 1 0 "file:///")) (.awaiting .hello 1) rfl
      ⟨by decide, by decide⟩) nofun
    |>.snoc (.server (.put (Frame.encode (grant 1))) rfl) nofun
    |>.snoc (@Does.report _ .start (.value (grant 1)) [] rfl rfl) nofun
    |>.snoc (@Does.learn _ .hello 1 (grant 1) rfl rfl) nofun
    |>.snoc (@Does.put _ (.message .initialized) (.idle (.ok ())) rfl ⟨by decide, by decide⟩) nofun
  have opened := greeted
    |>.snoc (.openDocument rfl "/a.cfg" "x") nofun
    |>.snoc (@Does.put _ (.message (.opened "file:///a.cfg" "cfg" 1 "x")) (.idle (.ok ())) rfl
      ⟨by decide, by decide⟩) nofun
    |>.snoc (.openDocument rfl "a.cfg" "y") nofun
    |>.snoc (.openDocument rfl "/b.cfg" "y") nofun
    |>.snoc (@Does.put _ (.message (.opened "file:///b.cfg" "cfg" 1 "y")) (.idle (.ok ())) rfl
      ⟨by decide, by decide⟩) nofun
  have changed := opened
    |>.snoc (.openDocument rfl "/a.cfg" "z") nofun
    |>.snoc (@Does.put _ (.message (.changed "file:///a.cfg" 2 "z")) (.idle (.ok ())) rfl
      ⟨by decide, by decide⟩) nofun
  exact ⟨_, _, changed, rfl, rfl⟩

/-! ## Documents -/

/-- **Documents stay synchronised.** Let a client have been started, and have been called to show
documents, in whatever order.

* A document has a version if and only if it was opened.
* What the server is told about a document is a beginning of its life, which depends on the calls
  with its URI only.
* If no document was turned away, it is all of it, up to the one that the caller is about to show.
* A call with a path that has no URI changes nothing, and says so.
* As long as there are fewer than 2³¹ calls, so are the versions.
* A server that a restart has launched is told of every document as of a new one. -/
theorem documents_stay_synchronised {c : Client} {h : Server.History} {l : Link}
    (run : Course (.start c) h l) :
    (∀ uri, uri ∈ l.documents.opened ↔ uri ∈ l.documents.versions.map Prod.fst) ∧
    (∀ uri, about uri h.frames <+: about uri h.queued ∧
      about uri h.queued <+: lifetime uri c.language (textsShown uri h.documents)) ∧
    (Accepts (.start c) h l → ∀ uri, about uri h.queued ++ about uri l.due =
      lifetime uri c.language (textsShown uri h.documents)) ∧
    (∀ path text, Uri.ofPath? path = none →
      l.openDocument path text = { l with caller := .idle (.error (.noUri path)) }) ∧
    (h.documents.length < 0x80000000 →
      (∀ m ∈ h.queued, ∀ version ∈ m.version?, version < 0x80000000) ∧
      ∀ uri, ∀ version ∈ l.version? uri, version < 0x80000000) ∧
    ∀ (settings : Settings) (r r' : Running Live),
      r.run Live.parts settings .restart = (r', .done) →
      ∃ s rest, r'.parts.fleet.launches = s :: rest ∧ r'.controller.server = some s.session ∧
        ∀ k l', Course s.exchange.link k l' → ∀ uri,
          about uri k.queued <+:
            lifetime uri s.exchange.link.client.language (textsShown uri k.documents) ∧
          ∀ m ms, about uri k.queued = m :: ms →
            ∃ text, m = .opened uri s.exchange.link.client.language 1 text := by
  have speech := run.speech
  refine ⟨speech.versions.opened_iff, fun uri => ⟨run.transport.beginning.filter _,
    speech.about_queued uri⟩, fun accepts => accepts.synchronised,
    fun path text => l.openDocument_of_noUri text, ?_, ?_⟩
  · intro few
    exact ⟨fun m queued version shows => Nat.lt_of_le_of_lt (speech.version_le queued shows) few,
      fun uri version noted => Nat.lt_of_le_of_lt (speech.versions.version_le noted) few⟩
  · intro settings r r' restarted
    obtain ⟨f, spec, process, session, interpreter, launched, held⟩ :=
      Running.restart_hasLaunched restarted
    obtain ⟨s, rest, launches, same, fresh⟩ := Fleet.launch_fresh launched
    refine ⟨s, rest, launches, same ▸ held, fun k l' later uri => ?_⟩
    have begun := fresh.about_queued later uri
    exact ⟨begun, fun m ms first => lifetime_head (first ▸ begun)⟩

/-- Two documents are shown in turns, and a path without a URI is passed over. A controller that is
restarted on a machine with an interpreter has a server to which every document is new. -/
theorem documents_stay_synchronised_interleaved :
    (∃ h l, Course (.start simpleClient) h l ∧
      h.documents = [("/a.cfg", "x"), ("a.cfg", "y"), ("/b.cfg", "y"), ("/a.cfg", "z")] ∧
      about "file:///a.cfg" h.queued =
        [.opened "file:///a.cfg" "cfg" 1 "x", .changed "file:///a.cfg" 2 "z"] ∧
      about "file:///b.cfg" h.queued = [.opened "file:///b.cfg" "cfg" 1 "y"]) ∧
    ∃ r s rest, plainSession.run Live.parts {} .restart = (r, .done) ∧
      r.parts.fleet.launches = s :: rest ∧
      ∀ k l', Course s.exchange.link k l' → ∀ m ms, about "file:///a.cfg" k.queued = m :: ms →
        ∃ text, m = .opened "file:///a.cfg" s.exchange.link.client.language 1 text := by
  obtain ⟨h, l, accepts, silent, documents⟩ := exists_accepted
  obtain ⟨_, _, whole, _, _, afresh⟩ := documents_stay_synchronised accepts.course
  obtain ⟨r, restarted⟩ := plainSession_restart
  obtain ⟨s, rest, launches, _, life⟩ := afresh {} plainSession r restarted
  have told (uri : String) :
      about uri h.queued = lifetime uri "cfg" (textsShown uri h.documents) := by
    have all := whole accepts uri
    have nothing : about uri [] = [] := rfl
    rwa [silent, nothing, List.append_nil] at all
  refine ⟨⟨h, l, accepts.course, documents, ?_, ?_⟩, r, s, rest, restarted, launches,
    fun k l' later => (life k l' later "file:///a.cfg").2⟩
  · rw [told, documents]
    rfl
  · rw [told, documents]
    rfl

end Gatekeeper.Session
