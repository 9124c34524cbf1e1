import Gatekeeper.Proofs.Session.Turn
import Gatekeeper.Session.Run
import Gatekeeper.Session.Crowd
import Mathlib.Data.List.Basic
import Mathlib.Data.List.Induction

set_option autoImplicit false

/-!
# Chronicles of a crowd

A **chronicle** is the record of a run: which operations arrived, which commands got the controller,
which answers came, each with the turn that it led to. `Crowd.Move` is one entry of it. A move is
finer than `Crowd.Step`: a command that waits gets the controller in a move of its own, so other
operations may arrive in between, the surroundings may change from turn to turn, and it is left open
which of the waiting commands is next. `Crowd.Step` and `Running.run`, which are what is run, are
made of moves (`Crowd.Step.chronicle`, `Running.run_chronicle`); what holds along every chronicle
holds of them.

The views of a history (`calls`, `launches`, `shutdowns`, `exits`) say what the parts of the
controller were asked and what became of the servers. They read the record only, not the state of
the controller.
-/

namespace Gatekeeper.Session

/-! ## Records -/

/-- Something that happens to a crowd. -/
inductive Happening
  /-- An operation arrives: it is over at once, or it waits for the controller with a command. -/
  | arrived (number : Nat) (o : Operation) (effects : List Effect) (outcome : Result ⊕ Command)
  /-- A command gets the controller and takes its first turn. -/
  | began (number : Nat) (command : Command) (turn : Turn)
  /-- The operation that has the controller gets an answer and takes its next turn. -/
  | answered (number : Nat) (stage : Stage) (a : stage.Answer) (turn : Turn)

namespace Happening

/-- The turn that is taken, if there is one. -/
def turn? : Happening → Option Turn
  | arrived _ _ _ _ => none
  | began _ _ t => some t
  | answered _ _ _ t => some t

def effects : Happening → List Effect
  | arrived _ _ effects _ => effects
  | began _ _ t => t.effects
  | answered _ _ _ t => t.effects

/-- The launch that is asked for at the end of the turn. -/
def calls (e : Happening) : List (Id × String) :=
  match e.turn? with
  | some t => askedLaunch t.progress.stage?
  | none => []

/-- The server that the launcher handed over. -/
def launches : Happening → List (Id × String)
  | answered _ (.launching session interpreter) a _ =>
    match (a : Except (List String) Unit) with
    | .ok _ => [(session, interpreter)]
    | .error _ => []
  | _ => []

/-- The server whose shutdown was completed. -/
def shutdowns : Happening → List Id
  | answered _ (.stopping session _) _ _ => [session]
  | _ => []

/-- The server that was reported gone, by a report that was answered with *true*. -/
def exits : Happening → List Id
  | began _ (.exited session) t =>
    match t.progress with
    | .finished (.value true) => [session]
    | _ => []
  | _ => []

/-- The server that was disposed of in either way. -/
def disposals (e : Happening) : List Id := e.shutdowns ++ e.exits

/-- What a happening adds to the views of a history. -/
structure Entry where
  effects : List Effect
  calls : List (Id × String)
  launches : List (Id × String)
  disposals : List Id

def entry (e : Happening) : Entry := ⟨e.effects, e.calls, e.launches, e.disposals⟩

end Happening

/-- What happened, in order. -/
abbrev History := List Happening

namespace History

variable (h : History)

def effects : List Effect := h.flatMap Happening.effects

/-- The launches that were asked for. -/
def calls : List (Id × String) := h.flatMap Happening.calls

/-- The servers that the launcher handed over, with their interpreters. -/
def launches : List (Id × String) := h.flatMap Happening.launches

/-- The servers whose shutdown was completed. -/
def shutdowns : List Id := h.flatMap Happening.shutdowns

/-- The servers that were dropped because they were reported gone. -/
def exits : List Id := h.flatMap Happening.exits

def disposals : List Id := h.flatMap Happening.disposals

/-- The servers that the launcher handed over and that have been neither shut down nor dropped. A
server that is handed over twice, or disposed of twice, counts twice. -/
def live : List Id := (h.launches.map Prod.fst).diff h.disposals

variable (e : Happening) (k : History)

theorem effects_append : effects (h ++ k) = h.effects ++ k.effects := List.flatMap_append

theorem effects_snoc : effects (h ++ [e]) = h.effects ++ e.effects := by
  rw [effects_append, effects, effects, List.flatMap_singleton]

theorem calls_snoc : calls (h ++ [e]) = h.calls ++ e.calls := by
  rw [calls, List.flatMap_append, List.flatMap_singleton, calls]

theorem launches_snoc : launches (h ++ [e]) = h.launches ++ e.launches := by
  rw [launches, List.flatMap_append, List.flatMap_singleton, launches]

theorem disposals_snoc : disposals (h ++ [e]) = h.disposals ++ e.disposals := by
  rw [disposals, List.flatMap_append, List.flatMap_singleton, disposals]

end History

/-! ## Moves and chronicles -/

namespace Crowd

/-- A crowd on a new controller. -/
def initial (settings : Settings) (s : Surroundings) : Crowd :=
  { controller := .initial settings s }

/-- The stage of the operation that has the controller. -/
def stage? (c : Crowd) : Option Stage := c.holder.map Prod.snd

@[simp] theorem controller_turned (c : Crowd) (k : Nat) (t : Turn) :
    (c.turned k t).controller = t.state := by
  rw [turned]
  cases t.progress <;> rfl

theorem holder_turned (c : Crowd) (k : Nat) (t : Turn) :
    (c.turned k t).holder = t.progress.stage?.map (k, ·) := by
  rw [turned]
  cases t.progress <;> rfl

@[simp] theorem stage?_turned (c : Crowd) (k : Nat) (t : Turn) :
    (c.turned k t).stage? = t.progress.stage? := by
  rw [turned]
  cases t.progress <;> rfl

theorem line_turned (c : Crowd) (k : Nat) (t : Turn) : (c.turned k t).line = c.line := by
  rw [turned]
  cases t.progress <;> rfl

/-- A turn does not look at the line. -/
theorem turned_line (c : Crowd) (line : List (Nat × Command)) (k : Nat) (t : Turn) :
    { c with line }.turned k t = { c.turned k t with line } := by
  unfold turned
  cases t.progress <;> rfl

/-- What can happen to a crowd, and what comes of it. -/
inductive Move (settings : Settings) : Crowd → Happening → Crowd → Prop
  /-- An operation arrives that has its result before it needs the controller. -/
  | dismiss {c : Crowd} {s : Surroundings} {o : Operation} {effects : List Effect} {result : Result}
      (accepted : o.accept s = (effects, .inl result)) (k : Nat) :
      Move settings c (.arrived k o effects (.inl result))
        { c with results := (k, result) :: c.results }
  /-- An operation arrives that has to wait for the controller. -/
  | queue {c : Crowd} {s : Surroundings} {o : Operation} {effects : List Effect}
      {command : Command} (accepted : o.accept s = (effects, .inr command)) (k : Nat) :
      Move settings c (.arrived k o effects (.inr command))
        { c with line := c.line ++ [(k, command)] }
  /-- One of the commands that wait gets the controller, which is free. -/
  | begin {c : Crowd} {k : Nat} {command : Command} {before behind : List (Nat × Command)}
      (free : c.holder = none) (waits : c.line = before ++ (k, command) :: behind)
      (s : Surroundings) :
      Move settings c (.began k command (c.controller.begin settings s command))
        ({ c with line := before ++ behind }.turned k (c.controller.begin settings s command))
  /-- The operation that has the controller gets an answer. -/
  | answer {c : Crowd} {k : Nat} {stage : Stage} (holds : c.holder = some (k, stage))
      (s : Surroundings) (a : stage.Answer) :
      Move settings c (.answered k stage a (c.controller.resume s stage a))
        (c.turned k (c.controller.resume s stage a))

/-- `Chronicle settings c₀ h c`: from `c₀`, what happened in `h` led to `c`. -/
inductive Chronicle (settings : Settings) (c₀ : Crowd) : History → Crowd → Prop
  | nil : Chronicle settings c₀ [] c₀
  | snoc {h : History} {e : Happening} {c c' : Crowd} (past : Chronicle settings c₀ h c)
      (move : Move settings c e c') : Chronicle settings c₀ (h ++ [e]) c'

namespace Chronicle

variable {settings : Settings} {c₀ c c' : Crowd} {h k : History} {e : Happening}

theorem single (move : Move settings c₀ e c) : Chronicle settings c₀ [e] c := .snoc .nil move

theorem trans (first : Chronicle settings c₀ h c) (second : Chronicle settings c k c') :
    Chronicle settings c₀ (h ++ k) c' := by
  induction second with
  | nil => rwa [List.append_nil]
  | snoc _ move ih =>
      rw [← List.append_assoc]
      exact .snoc ih move

/-- The last move of a chronicle. -/
theorem of_snoc (run : Chronicle settings c₀ (h ++ [e]) c) :
    ∃ m, Chronicle settings c₀ h m ∧ Move settings m e c := by
  generalize all : h ++ [e] = g at run
  cases run with
  | nil => simp at all
  | snoc past move =>
      obtain ⟨same, last⟩ := List.append_inj' all rfl
      cases last
      subst same
      exact ⟨_, past, move⟩

/-- A chronicle can be read up to any point. -/
theorem split (run : Chronicle settings c₀ (h ++ k) c) :
    ∃ m, Chronicle settings c₀ h m ∧ Chronicle settings m k c := by
  induction k using List.reverseRecOn generalizing c with
  | nil =>
      rw [List.append_nil] at run
      exact ⟨c, run, .nil⟩
  | append_singleton k e ih =>
      rw [← List.append_assoc] at run
      obtain ⟨m', past, move⟩ := run.of_snoc
      obtain ⟨m, first, second⟩ := ih past
      exact ⟨m, first, .snoc second move⟩

/-- Whatever has happened was a move. -/
theorem exists_move_of_mem (run : Chronicle settings c₀ h c) (member : e ∈ h) :
    ∃ past m m', Chronicle settings c₀ past m ∧ Move settings m e m' := by
  obtain ⟨past, later, rfl⟩ := List.append_of_mem member
  rw [List.append_cons] at run
  obtain ⟨m', upTo, _⟩ := run.split
  obtain ⟨m, before, move⟩ := upTo.of_snoc
  exact ⟨past, m, m', before, move⟩

end Chronicle

/-! ## What is run is made of moves -/

/-- Serving a line is a chronicle. -/
theorem serve_chronicle (settings : Settings) (s : Surroundings) (line : List (Nat × Command))
    (c : Crowd) : ∃ h, Chronicle settings { c with line } h (c.serve settings s line).1 ∧
      h.effects = (c.serve settings s line).2 := by
  induction line generalizing c with
  | nil => exact ⟨[], .nil, rfl⟩
  | cons head rest ih =>
      obtain ⟨k, command⟩ := head
      rw [serve]
      by_cases busy : c.holder.isSome
      · rw [if_pos busy]
        exact ⟨[], .nil, rfl⟩
      · rw [if_neg busy]
        -- the head gets the controller, and the rest is served on what its turn leaves
        have free : c.holder = none := by simpa using busy
        obtain ⟨h, run, effects⟩ := ih (c.turned k (c.controller.begin settings s command))
        have first : Move settings { c with line := (k, command) :: rest }
            (.began k command (c.controller.begin settings s command))
            ({ c with line := rest }.turned k (c.controller.begin settings s command)) :=
          @Move.begin _ { c with line := (k, command) :: rest } _ _ [] rest free rfl s
        rw [turned_line] at first
        refine ⟨_, (Chronicle.single first).trans run, ?_⟩
        rw [History.effects_append, effects]
        simp [History.effects, Happening.effects]

/-- **A step is made of moves**, and has their effects. -/
theorem Step.chronicle {settings : Settings} {c c' : Crowd} {effects : List Effect}
    (step : Step settings c c' effects) :
    ∃ h, Chronicle settings c h c' ∧ h.effects = effects := by
  cases step with
  | arrive s k o =>
      unfold Crowd.arrive
      rcases accepted : o.accept s with ⟨effects, result | command⟩
      · refine ⟨_, .single (.dismiss accepted k), ?_⟩
        simp [History.effects, Happening.effects]
      · obtain ⟨h, run, more⟩ := serve_chronicle settings s (c.line ++ [(k, command)]) c
        refine ⟨_, (Chronicle.single (.queue accepted k)).trans run, ?_⟩
        rw [History.effects_append, more]
        simp [History.effects, Happening.effects]
  | answer s k stage a holds =>
      obtain ⟨h, run, more⟩ :=
        serve_chronicle settings s c.line (c.turned k (c.controller.resume s stage a))
      rw [← turned_line] at run
      refine ⟨_, (Chronicle.single (.answer holds s a)).trans run, ?_⟩
      rw [History.effects_append, more]
      simp [History.effects, Happening.effects, Crowd.resume]

/-- A controller that is free in some run. -/
def Reachable (settings : Settings) (n : Controller) : Prop :=
  ∃ (s : Surroundings) (h : History) (c : Crowd),
    Chronicle settings (.initial settings s) h c ∧ c.holder = none ∧ c.controller = n

end Crowd

namespace Running

open Crowd

variable {σ : Type} (p : Parts σ) (settings : Settings)

/-- An operation that is run on from the end of a turn takes moves until it is over. -/
theorem drive_chronicle (r : Running σ) (progress : Progress) (c : Crowd) (k : Nat)
    (effects : List Effect) (free : c.holder = none) :
    ∃ h c', Chronicle settings (c.turned k ⟨r.controller, effects, progress⟩) h c' ∧
      c'.holder = none ∧ c'.controller = (drive p r progress).1.controller := by
  induction r, progress using drive.induct p generalizing c effects with
  | case1 r result =>
      rw [drive]
      exact ⟨[], _, .nil, rfl, rfl⟩
  | case2 r stage a world asked turn ih =>
      rw [drive]
      simp only [asked]
      obtain ⟨h, c', run, free', same⟩ := ih c turn.effects free
      have first : Move settings (c.turned k ⟨r.controller, effects, .waiting stage⟩)
          (.answered k stage a turn) (c.turned k turn) :=
        .answer rfl (p.surroundings world) a
      exact ⟨_, c', (Chronicle.single first).trans run, free', same⟩

/-- **An operation that is run on its own is made of moves**: it leads from a controller that is
free in some run to another one. -/
theorem run_chronicle (r : Running σ) (o : Operation)
    (reachable : Reachable settings r.controller) :
    Reachable settings (r.run p settings o).1.controller := by
  obtain ⟨s, h, c, past, free, same⟩ := reachable
  rw [run]
  rcases accepted : o.accept (p.surroundings r.parts) with ⟨effects, result | command⟩
  · exact ⟨s, h, c, past, free, same⟩
  · let parts := effects.foldl p.note r.parts
    let turn := c.controller.begin settings (p.surroundings parts) command
    have arrives : Move settings c (.arrived 0 o effects (.inr command))
        { c with line := c.line ++ [(0, command)] } := .queue accepted 0
    have begins : Move settings { c with line := c.line ++ [(0, command)] }
        (.began 0 command turn) ({ c with line := c.line ++ [] }.turned 0 turn) :=
      @Move.begin _ { c with line := c.line ++ [(0, command)] } _ _ _ _ free rfl _
    obtain ⟨h', c', goesOn, free', same'⟩ :=
      drive_chronicle p settings (settle p parts turn) turn.progress
        { c with line := c.line ++ [] } 0 turn.effects free
    refine ⟨s, _, c', ((past.snoc arrives).snoc begins).trans goesOn, free', ?_⟩
    unfold perform
    simp only [← same]
    exact same'

end Running

/-! ## A run in which operations overlap -/

namespace Crowd

/-- A host that knows one interpreter. -/
def simpleHost : Surroundings := ⟨true, some "/venv/bin/python", id, fun _ => true⟩

/-- A restart waits while the first server is launched, and replaces it by a second one. Reports
that either has gone are waiting then; the one on the first server is late. -/
theorem overlapping_run : ∃ h c, Chronicle {} (.initial {} simpleHost) h c ∧
    h.launches = [(⟨1⟩, "/venv/bin/python"), (⟨2⟩, "/venv/bin/python")] ∧
    h.shutdowns = [⟨1⟩] ∧ c.holder = none ∧ c.controller.server = some ⟨2⟩ ∧
    c.line = [(2, .exited ⟨1⟩), (3, .exited ⟨2⟩)] := by
  have idle : Chronicle {} (.initial {} simpleHost) [] (.initial {} simpleHost) := .nil
  have started := idle
    |>.snoc (.queue (o := .start) (s := simpleHost) rfl 0)
    |>.snoc (.queue (o := .restart) (s := simpleHost) rfl 1)
    |>.snoc (@Move.begin _ _ 0 .start [] [(1, .restart)] rfl rfl simpleHost)
    |>.snoc (@Move.answer _ _ 0 (.verifying "/venv/bin/python" false) rfl simpleHost
      (Verdict.compatible []))
    |>.snoc (@Move.answer _ _ 0 (.launching ⟨1⟩ "/venv/bin/python") rfl simpleHost
      (Except.ok ()))
  have restarted := started
    |>.snoc (@Move.begin _ _ 1 .restart [] [] rfl rfl simpleHost)
    |>.snoc (.queue (o := .exited ⟨1⟩) (s := simpleHost) rfl 2)
    |>.snoc (@Move.answer _ _ 1 (.stopping ⟨1⟩ .start) rfl simpleHost ())
    |>.snoc (@Move.answer _ _ 1 (.verifying "/venv/bin/python" false) rfl simpleHost
      (Verdict.compatible []))
    |>.snoc (@Move.answer _ _ 1 (.launching ⟨2⟩ "/venv/bin/python") rfl simpleHost
      (Except.ok ()))
  exact ⟨_, _, restarted.snoc (.queue (o := .exited ⟨2⟩) (s := simpleHost) rfl 3), rfl, rfl, rfl,
    rfl, rfl⟩

end Crowd

end Gatekeeper.Session
