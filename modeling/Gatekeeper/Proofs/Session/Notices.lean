import Gatekeeper.Proofs.Session.Rest
import Mathlib.Data.List.Chain

set_option autoImplicit false

/-!
# Statuses and notices

What a host is shown of the servers: the statuses that are published, and the notices that a server
has started (I001) or stopped (I002). The statuses move along the state machine `Status.Next`, and
a launch that is under way is always on show (`ShowsLaunch`), so its end is the next status. The
notices are issued where the books of the servers change, one for each entry
(`Move.lifeNotices_eq`); since the books balance, they alternate.
-/

namespace Gatekeeper.Session

/-! ## The state machine of the status -/

/-- The statuses that are published. -/
def statuses (effects : List Effect) : List Status :=
  effects.filterMap fun
    | .publish s => some s
    | .emit _ => none

theorem statuses_emit (events : List Event) : statuses (events.map .emit) = [] := by
  induction events with
  | nil => rfl
  | cons _ events ih => exact ih

theorem mem_statuses {s : Status} {effects : List Effect} :
    s ∈ statuses effects ↔ .publish s ∈ effects := by
  constructor
  · intro shown
    obtain ⟨e, member, same⟩ := List.mem_filterMap.mp shown
    cases e with
    | publish s' =>
        cases same
        exact member
    | emit _ => cases same
  · exact fun member => List.mem_filterMap.mpr ⟨_, member, rfl⟩

/-- The status that may follow on another one. Only a launch puts another interpreter on show. -/
inductive Status.Next : Status → Status → Prop
  | rests (i : Option String) : Next ⟨.stopped, i⟩ ⟨.stopped, i⟩
  | starts (i : Option String) (interpreter : String) :
      Next ⟨.stopped, i⟩ ⟨.starting, some interpreter⟩
  | comesUp (i : Option String) : Next ⟨.starting, i⟩ ⟨.running, i⟩
  | fails (i : Option String) : Next ⟨.starting, i⟩ ⟨.stopped, i⟩
  | goesDown (i : Option String) : Next ⟨.running, i⟩ ⟨.stopped, i⟩

namespace Status

variable {a b : Status}

theorem Next.starting_of_ne (next : Next a b) (ne : a.interpreter ≠ b.interpreter) :
    b.phase = .starting := by
  cases next with
  | starts _ _ => rfl
  | _ => exact absurd rfl ne

/-- An interpreter that is on show is replaced, but not taken away. -/
theorem Next.isSome (next : Next a b) : a.interpreter.isSome → b.interpreter.isSome := by
  cases next with
  | starts _ _ => exact fun _ => rfl
  | _ => exact id

end Status

/-- From the status that was shown before, the published ones follow one on another. -/
def Orderly (s : Status) (effects : List Effect) : Prop :=
  List.IsChain Status.Next (s :: statuses effects)

namespace Orderly

variable {s s' : Status} {es fs : List Effect}

/-- Events do not show. -/
theorem emit (s : Status) (events : List Event) : Orderly s (events.map .emit) := by
  rw [Orderly, statuses_emit]
  exact List.isChain_singleton s

theorem publish (next : Status.Next s s') : Orderly s [.publish s'] := List.isChain_pair.mpr next

theorem publish_emit (next : Status.Next s s') (e : Event) : Orderly s [.publish s', .emit e] :=
  List.isChain_pair.mpr next

/-- What comes later follows on what is seen then. -/
theorem append (first : Orderly s es) (second : Orderly (seen s es) fs) : Orderly s (es ++ fs) := by
  -- by induction on the first effects; only a status moves what is seen
  induction es generalizing s with
  | nil => exact second
  | cons e es ih =>
      cases e with
      | publish s' =>
          obtain ⟨next, rest⟩ := List.isChain_cons_cons.mp first
          exact List.isChain_cons_cons.mpr ⟨next, ih rest second⟩
      | emit _ => exact ih first second

end Orderly

namespace Controller

variable {c : Controller} {t : Turn}

/-- A launch that is under way is on show. -/
def ShowsLaunch (c : Controller) (stage : Option Stage) : Prop :=
  askedLaunch stage ≠ [] → c.published = ⟨.starting, c.bound⟩

/-- Without a server, a controller at rest shows that it is stopped. -/
theorem AtRest.published_stopped (rest : c.AtRest) (gone : c.server = none) :
    c.published = ⟨.stopped, c.bound⟩ := by
  rw [rest.published_eq, status, rest.phase_eq, gone]
  rfl

theorem AtRest.published_running (rest : c.AtRest) {session : Id}
    (held : c.server = some session) : c.published = ⟨.running, c.bound⟩ := by
  rw [rest.published_eq, status, rest.phase_eq, held]
  rfl

theorem Outcome.orderly (o : Outcome c t) (rest : c.AtRest) : Orderly c.published t.effects := by
  cases o with
  | tells events _ => exact .emit _ events
  | launches gone interpreter =>
      rw [launch_effects, rest.published_stopped gone]
      -- the host is told of a new preference first, which does not show
      have told : Orderly ⟨.stopped, c.bound⟩ (if c.prefers interpreter then []
          else [.emit (.bound interpreter)]) := by
        split
        · exact .emit _ []
        · exact .emit _ [.bound interpreter]
      refine told.append (.publish ?_)
      split
      · exact .starts c.bound interpreter
      · exact .starts c.bound interpreter
  | deactivates gone =>
      rw [rest.published_stopped gone]
      exact .publish (.rests c.bound)
  | _ => exact .emit _ []

theorem Outcome.showsLaunch (o : Outcome c t) : t.state.ShowsLaunch t.progress.stage? := by
  cases o with
  | launches gone interpreter => exact fun _ => rfl
  | _ => exact fun asked => absurd rfl asked

/-- A launch that is asked for is shown with its interpreter. -/
theorem Outcome.shows_asked (o : Outcome c t) :
    ∀ call ∈ askedLaunch t.progress.stage?, ⟨.starting, some call.2⟩ ∈ statuses t.effects := by
  cases o with
  | launches gone interpreter =>
      intro call member
      rw [List.mem_singleton.mp member, mem_statuses, launch_effects]
      exact List.mem_append_right _ List.mem_cons_self
  | _ => exact fun _ member => absurd member List.not_mem_nil

end Controller

open Controller

namespace Passage

variable {c c' : Controller} {stage stage' : Option Stage} {r : Happening.Entry}

theorem showsLaunch (way : Passage c stage r c' stage') (before : c.ShowsLaunch stage) :
    c'.ShowsLaunch stage' := by
  cases way with
  | arrives _ _ => exact before
  | turns _ o => exact o.showsLaunch
  | stopped o => exact o.showsLaunch
  | _ => exact fun asked => absurd rfl asked

/-- **Every passage publishes along the state machine.** -/
theorem orderly (way : Passage c stage r c' stage') (fits : c.Fits stage)
    (shown : c.ShowsLaunch stage) : Orderly c.published r.effects := by
  cases way with
  | arrives _ events => exact .emit _ events
  | turns quiet o => exact o.orderly (fits.atRest quiet)
  | exits held =>
      have rest : c.AtRest := fits
      rw [rest.published_running held]
      exact .publish_emit (.goesDown c.bound) _
  | @stopped session next t o =>
      -- the server is still on show while it goes down
      obtain ⟨gone, rest⟩ := fits
      have running : c.published = ⟨.running, c.bound⟩ := rest.published_running rfl
      rw [running]
      have down : Orderly ⟨.running, c.bound⟩
          [.publish ⟨.stopped, c.bound⟩, notice .stopped none] :=
        .publish_emit (.goesDown c.bound) _
      exact down.append (o.orderly (rest.stopped gone))
  | up session interpreter =>
      rw [shown (List.cons_ne_nil _ _)]
      exact .publish_emit (.comesUp c.bound) _
  | failed session interpreter =>
      rw [shown (List.cons_ne_nil _ _)]
      exact .publish (.fails c.bound)

/-- **What becomes of a server is shown**: that it is launched, that it is up, and that it is down
or has gone. -/
theorem shows (way : Passage c stage r c' stage') (fits : c.Fits stage) :
    (∀ call ∈ r.calls, ⟨.starting, some call.2⟩ ∈ statuses r.effects) ∧
      (∀ launch ∈ r.launches, ⟨.running, some launch.2⟩ ∈ statuses r.effects) ∧
      ∀ session ∈ r.disposals, ⟨.stopped, c.bound⟩ ∈ statuses r.effects := by
  have nothing {α : Type} {p : α → Prop} : ∀ x ∈ ([] : List α), p x :=
    fun _ member => absurd member List.not_mem_nil
  cases way with
  | arrives _ events => exact ⟨nothing, nothing, nothing⟩
  | turns quiet o => exact ⟨o.shows_asked, nothing, nothing⟩
  | exits held => exact ⟨nothing, nothing, fun _ _ => List.mem_cons_self⟩
  | stopped o =>
      refine ⟨fun call asked => ?_, nothing, fun _ _ => List.mem_cons_self⟩
      rw [mem_statuses]
      exact List.mem_append_right _ (mem_statuses.mp (o.shows_asked call asked))
  | up session interpreter =>
      refine ⟨nothing, fun launch up => ?_, nothing⟩
      have bound : c.bound = some interpreter := fits.2.1
      rw [List.mem_singleton.mp up, ← bound]
      exact List.mem_cons_self
  | failed session interpreter => exact ⟨nothing, nothing, nothing⟩

end Passage

/-! ## Notices of the servers -/

/-- The notices that a server has started or stopped. -/
def lifeNotices (effects : List Effect) : List Message :=
  effects.filterMap fun
    | .emit (.notice .started _) => some .started
    | .emit (.notice .stopped _) => some .stopped
    | _ => none

theorem lifeNotices_append (es fs : List Effect) :
    lifeNotices (es ++ fs) = lifeNotices es ++ lifeNotices fs := List.filterMap_append

theorem Operation.lifeNotices_accept (o : Operation) (s : Surroundings) :
    lifeNotices (o.accept s).1 = [] := by
  rcases o.told_by_accept s with none | unavailable
  · rw [none]
    rfl
  · rw [unavailable]
    rfl

namespace Controller

variable (c : Controller) (s : Surroundings)

theorem lifeNotices_start : lifeNotices (c.start s).effects = [] := by
  rw [start]
  split <;> rfl

theorem lifeNotices_launch (interpreter : String) :
    lifeNotices (c.launch interpreter).effects = [] := by
  rw [launch_effects]
  split <;> rfl

theorem lifeNotices_afterStop (next : AfterStop) :
    lifeNotices (c.afterStop s next).effects = [] := by
  cases next with
  | finish => rfl
  | start => exact lifeNotices_start c s
  | launch interpreter => exact lifeNotices_launch c interpreter
  | deactivate => rfl

/-- That a server is given up is no notice yet: it is issued once the server is down. -/
theorem lifeNotices_stop (next : AfterStop) : lifeNotices (c.stop s next).effects = [] := by
  rw [stop]
  split
  · rfl
  · exact lifeNotices_afterStop c s next

/-- A command issues a notice at once only if it reports that the server that is held has gone. -/
theorem lifeNotices_begin (settings : Settings) (k : Nat) (command : Command) :
    lifeNotices (c.begin settings s command).effects
      = (Happening.began k command (c.begin settings s command)).exits.map fun _ => .stopped := by
  cases command with
  | start => exact lifeNotices_start c s
  | stop => exact lifeNotices_stop c s .finish
  | restart => exact lifeNotices_stop c s .start
  | switch candidate asked =>
      rw [begin]
      split <;> rfl
  | exited session =>
      by_cases held : c.server = some session
      · rw [begin_exited_held settings s held]
        rfl
      · rw [begin_exited_stale settings s held]
        rfl
  | openDocument path text =>
      rw [begin]
      split <;> rfl
  | deactivate => exact lifeNotices_stop c s .deactivate

/-- A verdict is no news of a server. -/
theorem lifeNotices_verified (candidate : String) (switching : Bool) (verdict : Verdict) :
    lifeNotices (c.resume s (.verifying candidate switching) verdict).effects = [] := by
  rw [resume]
  split
  · exact lifeNotices_stop c s _
  · cases switching <;> rfl

/-- An answer issues a notice if it says that a server is down, or up. -/
theorem lifeNotices_resume (k : Nat) (stage : Stage) (a : stage.Answer) :
    lifeNotices (c.resume s stage a).effects
      = ((Happening.answered k stage a (c.resume s stage a)).launches.map fun _ => .started)
        ++ (Happening.answered k stage a (c.resume s stage a)).shutdowns.map fun _ => .stopped := by
  cases stage with
  | verifying candidate switching => exact lifeNotices_verified c s candidate switching a
  | stopping session next =>
      show lifeNotices (c.resume s (.stopping session next) ()).effects = [.stopped]
      rw [resume_stopping, Turn.effects_after, lifeNotices_append, lifeNotices_afterStop]
      rfl
  | launching session interpreter =>
      match a with
      | .ok () => rfl
      | .error _ => rfl
  | opening session path text => rfl

end Controller

/-- Of the two notices, the one with the given number in the order of a server's life. -/
def turnOfLife (i : Nat) : Message := if i % 2 = 0 then .started else .stopped

/-- The notices alternate, and the first one is that a server has started. -/
def Alternating (notices : List Message) : Prop :=
  ∀ i (inside : i < notices.length), notices[i] = turnOfLife i

theorem Alternating.snoc {notices : List Message} (alternating : Alternating notices) :
    Alternating (notices ++ [turnOfLife notices.length]) := by
  intro i inside
  rcases Nat.lt_or_ge i notices.length with earlier | last
  · rw [List.getElem_append_left earlier]
    exact alternating i earlier
  · have here : i = notices.length := by
      rw [List.length_append, List.length_singleton] at inside
      omega
    subst here
    exact List.getElem_concat_length rfl _

/-- A happening makes at most one entry in the books. -/
theorem Happening.one_entry (e : Happening) :
    (e.launches = [] ∧ e.disposals = []) ∨ (∃ x, e.launches = [x] ∧ e.disposals = []) ∨
      ∃ session, e.launches = [] ∧ e.disposals = [session] := by
  cases e with
  | arrived _ _ _ _ => exact Or.inl ⟨rfl, rfl⟩
  | began k command t =>
      cases command with
      | exited session =>
          have reported : (began k (.exited session) t).exits = [session] ∨
              (began k (.exited session) t).exits = [] := by
            obtain ⟨_, _, progress⟩ := t
            match progress with
            | .finished (.value true) => exact Or.inl rfl
            | .finished (.value false) | .finished .done | .finished (.failed _) | .waiting _ =>
                exact Or.inr rfl
          rcases reported with gone | stale
          · exact Or.inr (Or.inr ⟨session, rfl, gone⟩)
          · exact Or.inl ⟨rfl, stale⟩
      | _ => exact Or.inl ⟨rfl, rfl⟩
  | answered k stage a t =>
      cases stage with
      | stopping session _ => exact Or.inr (Or.inr ⟨session, rfl, rfl⟩)
      | launching session interpreter =>
          match a with
          | .ok _ => exact Or.inr (Or.inl ⟨_, rfl, rfl⟩)
          | .error _ => exact Or.inl ⟨rfl, rfl⟩
      | _ => exact Or.inl ⟨rfl, rfl⟩

/-! ## A whole run -/

namespace Crowd

variable {settings : Settings} {s : Surroundings} {h : History} {c c' : Crowd} {e : Happening}

/-- **One notice for each entry in the books.** -/
theorem Move.lifeNotices_eq (move : Move settings c e c') :
    lifeNotices e.effects
      = (e.launches.map fun _ => .started) ++ e.disposals.map fun _ => .stopped := by
  cases move with
  | @dismiss s o effects result accepted k =>
      have told := o.lifeNotices_accept s
      rw [accepted] at told
      exact told
  | @queue s o effects command accepted k =>
      have told := o.lifeNotices_accept s
      rw [accepted] at told
      exact told
  | @begin k command before behind free waits s =>
      exact lifeNotices_begin c.controller s settings k command
  | @answer k stage holds s a =>
      show _ = _ ++ List.map _ (_ ++ [])
      rw [List.append_nil]
      exact lifeNotices_resume c.controller s k stage a

/-- A command that finds no server to stop, or reports on one that is not held, issues no notice and
is over at once. -/
theorem Move.began_idle {k : Nat} {command : Command} {t : Turn}
    (move : Move settings c (.began k command t) c')
    (idle : (command = .stop ∨ command = .deactivate) ∧ c.controller.server = none ∨
      ∃ session, command = .exited session ∧ c.controller.server ≠ some session) :
    lifeNotices t.effects = [] ∧ t.progress.stage? = none := by
  cases move with
  | begin free waits s =>
      rcases idle with ⟨rfl | rfl, gone⟩ | ⟨session, rfl, stale⟩
      · rw [Controller.begin, stop, gone]
        exact ⟨rfl, rfl⟩
      · rw [Controller.begin, stop, gone]
        exact ⟨rfl, rfl⟩
      · rw [begin_exited_stale settings s stale]
        exact ⟨rfl, rfl⟩

theorem length_custody (c : Crowd) : c.custody.toList.length ≤ 1 := by
  cases c.custody with
  | none => exact Nat.zero_le 1
  | some _ => exact Nat.le_refl 1

namespace Chronicle

theorem showsLaunch (run : Chronicle settings (.initial settings s) h c) :
    c.controller.ShowsLaunch c.stage? := by
  induction run with
  | nil => exact fun asked => absurd rfl asked
  | snoc past move ih => exact (move.passage past.fits_initial).showsLaunch ih

theorem orderly (run : Chronicle settings (.initial settings s) h c) : Orderly {} h.effects := by
  induction run with
  | nil => exact .emit _ []
  | @snoc h e c c' past move ih =>
      have fits := past.fits_initial
      have now : Orderly c.controller.published e.effects :=
        (move.passage fits).orderly fits past.showsLaunch
      -- what was seen last is what the controller has published
      rw [past.published_eq] at now
      rw [History.effects_snoc]
      exact ih.append now

theorem lifeNotices_of_mem (run : Chronicle settings (.initial settings s) h c) (member : e ∈ h) :
    lifeNotices e.effects
      = (e.launches.map fun _ => .started) ++ e.disposals.map fun _ => .stopped := by
  obtain ⟨_, _, _, _, move⟩ := run.exists_move_of_mem member
  exact move.lifeNotices_eq

theorem shows_of_mem (run : Chronicle settings (.initial settings s) h c) (member : e ∈ h) :
    (∀ call ∈ e.calls, ⟨.starting, some call.2⟩ ∈ statuses e.effects) ∧
      (∀ launch ∈ e.launches, ⟨.running, some launch.2⟩ ∈ statuses e.effects) ∧
      ∀ session ∈ e.disposals, ∃ i, ⟨.stopped, i⟩ ∈ statuses e.effects := by
  obtain ⟨_, m, _, past, move⟩ := run.exists_move_of_mem member
  obtain ⟨asked, up, down⟩ := (move.passage past.fits_initial).shows past.fits_initial
  exact ⟨asked, up, fun session gone => ⟨m.controller.bound, down session gone⟩⟩

/-- As many notices of each kind as there are entries. -/
theorem count_lifeNotices (run : Chronicle settings (.initial settings s) h c) :
    (lifeNotices h.effects).count .started = h.launches.length ∧
      (lifeNotices h.effects).count .stopped = h.disposals.length ∧
      (lifeNotices h.effects).length = h.launches.length + h.disposals.length := by
  induction run with
  | nil => exact ⟨rfl, rfl, rfl⟩
  | @snoc h e c c' past move ih =>
      obtain ⟨started, stopped, all⟩ := ih
      rw [History.effects_snoc, lifeNotices_append, move.lifeNotices_eq, History.launches_snoc,
        History.disposals_snoc]
      simp only [List.count_append, List.length_append, List.length_map, started, stopped, all]
      rcases e.one_entry with ⟨up, down⟩ | ⟨x, up, down⟩ | ⟨session, up, down⟩
      · simp [up, down]
      · simp [up, down]
        omega
      · simp [up, down]
        omega

/-- A server has been started and not stopped when one is in custody. -/
theorem length_lifeNotices (run : Chronicle settings (.initial settings s) h c) :
    (lifeNotices h.effects).length = 2 * h.disposals.length + c.custody.toList.length := by
  have books : h.launches.length = h.disposals.length + c.custody.toList.length := by
    rw [← List.length_append, ← run.launches_eq, List.length_map]
  rw [run.count_lifeNotices.2.2]
  omega

/-- **The notices alternate.** -/
theorem alternating (run : Chronicle settings (.initial settings s) h c) :
    Alternating (lifeNotices h.effects) := by
  induction run with
  | nil => exact fun i inside => absurd inside (Nat.not_lt_zero i)
  | @snoc h e c c' past move ih =>
      have fits := past.fits_initial
      have books : c.custody.toList ++ e.launches.map Prod.fst
          = e.disposals ++ c'.custody.toList := (move.passage fits).custody_eq fits
      have balance := congrArg List.length books
      rw [List.length_append, List.length_append, List.length_map] at balance
      have before := c.length_custody
      have after := c'.length_custody
      have count := past.length_lifeNotices
      rw [History.effects_snoc, lifeNotices_append, move.lifeNotices_eq]
      -- what is in custody says how many notices there have been, even or odd
      rcases e.one_entry with ⟨up, down⟩ | ⟨x, up, down⟩ | ⟨session, up, down⟩
      · rw [up, down, List.map_nil, List.map_nil, List.append_nil, List.append_nil]
        exact ih
      · rw [up, down, List.length_singleton, List.length_nil] at balance
        have due : turnOfLife (lifeNotices (History.effects h)).length = .started := by
          rw [turnOfLife, if_pos (by omega)]
        rw [up, down]
        exact due ▸ ih.snoc
      · rw [up, down, List.length_singleton, List.length_nil] at balance
        have due : turnOfLife (lifeNotices (History.effects h)).length = .stopped := by
          rw [turnOfLife, if_neg (by omega)]
        rw [up, down]
        exact due ▸ ih.snoc

end Chronicle

end Crowd

/-! ## The main statement -/

open Crowd

/-- **Statuses and notices follow the servers.** Along every run, in which any operations overlap in
any order:

* the published statuses move along the state machine, from the status with which a controller
  begins;
* an interpreter is put on show only by a launch, and then there is always one on show;
* a launch that is asked for is shown with its interpreter, so is its success, and that a server is
  down or has gone is shown too;
* the notices that a server has started and that one has stopped alternate, the first one being that
  one has started;
* each is issued when a launch succeeds, when a shutdown is completed, or when the server that is
  held is reported gone, and there are as many of them;
* a stop or a deactivation that finds no server, and a report on a server that is not held, issue
  none. -/
theorem notices_follow_the_servers {settings : Settings} {s : Surroundings}
    {h : History} {c : Crowd} (run : Chronicle settings (.initial settings s) h c) :
    List.IsChain Status.Next ({} :: statuses h.effects) ∧
    List.IsChain (fun a b => a.interpreter ≠ b.interpreter → b.phase = .starting)
      ({} :: statuses h.effects) ∧
    List.Pairwise (fun a b => a.interpreter.isSome → b.interpreter.isSome)
      ({} :: statuses h.effects) ∧
    (∀ e ∈ h, (∀ call ∈ e.calls, ⟨.starting, some call.2⟩ ∈ statuses e.effects) ∧
      (∀ launch ∈ e.launches, ⟨.running, some launch.2⟩ ∈ statuses e.effects) ∧
      ∀ session ∈ e.disposals, ∃ i, ⟨.stopped, i⟩ ∈ statuses e.effects) ∧
    Alternating (lifeNotices h.effects) ∧
    (∀ e ∈ h, lifeNotices e.effects
      = (e.launches.map fun _ => .started) ++ e.disposals.map fun _ => .stopped) ∧
    (lifeNotices h.effects).count .started = h.launches.length ∧
    (lifeNotices h.effects).count .stopped = h.shutdowns.length + h.exits.length ∧
    ∀ (k : Nat) (command : Command) (t : Turn) (c' : Crowd),
      Move settings c (.began k command t) c' →
      (command = .stop ∨ command = .deactivate) ∧ c.controller.server = none ∨
        (∃ session, command = .exited session ∧ c.controller.server ≠ some session) →
      lifeNotices t.effects = [] ∧ t.progress.stage? = none := by
  have chain : List.IsChain Status.Next ({} :: statuses h.effects) := run.orderly
  have kept : List.IsChain (fun a b : Status => a.interpreter.isSome → b.interpreter.isSome)
      ({} :: statuses h.effects) := chain.imp fun _ _ next => next.isSome
  -- an interpreter that is on show stays on show, so it is passed on along the whole chain
  have trans : IsTrans Status fun a b => a.interpreter.isSome → b.interpreter.isSome :=
    ⟨fun _ _ _ first second => second ∘ first⟩
  obtain ⟨started, stopped, _⟩ := run.count_lifeNotices
  rw [History.length_disposals] at stopped
  exact ⟨chain, chain.imp fun _ _ next => next.starting_of_ne, kept.pairwise,
    fun _ => run.shows_of_mem, run.alternating, fun _ => run.lifeNotices_of_mem, started, stopped,
    fun _ _ _ _ => Move.began_idle⟩

/-- In a run with two launches, of which the second replaced the first, the notices are that a
server has started, stopped, and started. -/
theorem notices_follow_the_servers_overlapping : ∃ h c, Chronicle {} (.initial {} simpleHost) h c ∧
    lifeNotices h.effects = [.started, .stopped, .started] ∧
    List.IsChain Status.Next ({} :: statuses h.effects) := by
  obtain ⟨h, c, run, launches, _, free, held, _⟩ := overlapping_run
  obtain ⟨chain, _, _, _, alternating, _⟩ := notices_follow_the_servers run
  have custody : c.custody = some ⟨2⟩ := by
    rw [Crowd.custody, stage?, free]
    exact held
  have disposed : h.disposals = [⟨1⟩] := by
    have books := run.launches_eq
    rw [launches, custody] at books
    exact (List.append_inj_left' books.symm rfl)
  have three : (lifeNotices h.effects).length = 3 := by
    rw [run.length_lifeNotices, disposed, custody]
    rfl
  refine ⟨h, c, run, ?_, chain⟩
  apply List.ext_getElem three
  intro i inside _
  rw [alternating i inside]
  rw [three] at inside
  rcases i with _ | _ | _ | i
  · rfl
  · rfl
  · rfl
  · omega

end Gatekeeper.Session
