import Gatekeeper.Proofs.Session.Account

set_option autoImplicit false

/-!
# From a candidate to a launch

An operation that launches a server has had the interpreter verified first, in the same tenure and
exactly once, and the verdict was *compatible*. What an operation has asked for and heard so far is
determined by the stage it is at (`Standing`): `standing_begin` says so of the first stage, and
`Standing.resume` carries it from one stage to the next. Along an account the operation that has
the controller stands so (`Crowd.Account.standing`), and the main statement
(`nothing_unverified_is_launched`) is what this says of the stage of a launch.
-/

namespace Gatekeeper.Session

open Controller Crowd

/-! ## What an operation has asked for and heard -/

/-- The candidate that a verdict is asked for at a stage. -/
def askedVerdict : Option Stage → List String
  | some (.verifying candidate _) => [candidate]
  | _ => []

/-- The verdict that ends a stage, with the candidate it is on. -/
def heardVerdict : (stage : Stage) → stage.Answer → List (String × Verdict)
  | .verifying candidate _, (verdict : Verdict) => [(candidate, verdict)]
  | _, _ => []

namespace Happening

/-- The candidate that a verdict is asked for at the end of the turn. -/
def candidates (e : Happening) : List String :=
  match e.turn? with
  | some t => askedVerdict t.progress.stage?
  | none => []

/-- The verdict that arrived, with the candidate it is on. -/
def verdicts : Happening → List (String × Verdict)
  | answered _ stage a _ => heardVerdict stage a
  | _ => []

end Happening

/-- What was asked for and heard: the candidates to be verified, the verdicts, and the launches,
each in order. -/
structure Dealings where
  candidates : List String
  verdicts : List (String × Verdict)
  launches : List (Id × String)

def dealings (t : List Scene) : Dealings where
  candidates := t.flatMap fun x => x.happening.candidates
  verdicts := t.flatMap fun x => x.happening.verdicts
  launches := t.flatMap fun x => x.happening.calls

variable {settings : Settings} {t : List Scene} {x : Scene} {k : Nat} {command : Command}
  {stage stage' : Stage} {a : stage.Answer} {turn : Turn} {candidate : String}

theorem Happening.candidates_eq {e : Happening} (taken : e.turn? = some turn)
    (waits : turn.progress = .waiting stage) : e.candidates = askedVerdict (some stage) := by
  rw [Happening.candidates, taken]
  show askedVerdict turn.progress.stage? = _
  rw [waits]
  rfl

/-- The first turn of an operation asks for what it waits for. -/
theorem dealings_began (began : x.happening = .began k command turn) :
    dealings [x] = ⟨askedVerdict turn.progress.stage?, [], askedLaunch turn.progress.stage?⟩ := by
  simp [dealings, began, Happening.candidates, Happening.verdicts, Happening.calls,
    Happening.turn?]

/-- So does a later turn, after an answer was heard. -/
theorem dealings_answered (answered : x.happening = .answered k stage a turn) :
    dealings (t ++ [x]) =
      ⟨(dealings t).candidates ++ askedVerdict turn.progress.stage?,
        (dealings t).verdicts ++ heardVerdict stage a,
        (dealings t).launches ++ askedLaunch turn.progress.stage?⟩ := by
  simp [dealings, answered, Happening.candidates, Happening.verdicts, Happening.calls,
    Happening.turn?]

/-! ## Where an operation stands -/

/-- How the command came by the candidate: it names it, or when the verdict was asked for it was the
preferred interpreter, or the active one of the host where none was preferred. -/
def Command.Chose (t : List Scene) (candidate : String) : Command → Prop
  | start | restart => ∃ x ∈ t, x.happening.candidates = [candidate] ∧
      x.controller.preferred.or x.surroundings.active = some candidate
  | switch named _ => candidate = named
  | _ => False

/-- The candidate was verified, once, and the verdict was *compatible*; then the launches were asked
for. -/
def Cleared (t : List Scene) (command : Command) (candidate : String)
    (launches : List (Id × String)) : Prop :=
  command.Chose t candidate ∧
    ∃ v, v.isCompatible = true ∧ dealings t = ⟨[candidate], [(candidate, v)], launches⟩

/-- What an operation with the given tenure has done when it is at a stage. -/
def Standing (t : List Scene) (command : Command) : Stage → Prop
  | .verifying candidate _ => command.Chose t candidate ∧ dealings t = ⟨[candidate], [], []⟩
  | .stopping _ (.launch candidate) => Cleared t command candidate []
  | .launching session candidate => Cleared t command candidate [(session, candidate)]
  | .stopping _ .start => command = .restart ∧ dealings t = ⟨[], [], []⟩
  | _ => dealings t = ⟨[], [], []⟩

theorem Command.Chose.snoc (chose : command.Chose t candidate) (x : Scene) :
    command.Chose (t ++ [x]) candidate := by
  cases command with
  | start | restart =>
      obtain ⟨y, member, rest⟩ := chose
      exact ⟨y, List.mem_append_left _ member, rest⟩
  | switch named asked => exact chose
  | _ => exact chose

/-- **Where an operation stands after its first turn.** -/
theorem standing_begin (began : x.happening = .began k command turn) (follows : x.Follows settings)
    (waits : turn.progress = .waiting stage) : Standing [x] command stage := by
  have asks := dealings_began began
  have candidates : x.happening.candidates = askedVerdict (some stage) :=
    Happening.candidates_eq (by rw [began]; rfl) waits
  obtain ⟨n, s, e⟩ := x
  cases began
  rw [waits] at asks
  have opens : Opens n settings s command stage := opens_of_begin (follows ▸ waits)
  cases opens with
  | start chosen => exact ⟨⟨_, List.mem_cons_self, candidates, chosen⟩, asks⟩
  | stop held => exact asks
  | restart held => exact ⟨rfl, asks⟩
  | restartStopped gone chosen => exact ⟨⟨_, List.mem_cons_self, candidates, chosen⟩, asks⟩
  | switch named asked free => exact ⟨rfl, asks⟩
  | opening held path text => exact asks
  | deactivate held => exact asks

/-- **Where it stands after a later turn.** -/
theorem Standing.resume (standing : Standing t command stage)
    (answered : x.happening = .answered k stage a turn) (follows : x.Follows settings)
    (waits : turn.progress = .waiting stage') : Standing (t ++ [x]) command stage' := by
  have asks := @dealings_answered t x k stage a turn answered
  have candidates : x.happening.candidates = askedVerdict (some stage') :=
    Happening.candidates_eq (by rw [answered]; rfl) waits
  obtain ⟨n, s, e⟩ := x
  cases answered
  rw [waits] at asks
  have leads : Leads n s stage a stage' := leads_of_resume (follows ▸ waits)
  -- one case for each stage that an answer can lead to; in each, what was asked for and heard
  -- before is what the stage says of the tenure
  cases leads with
  | @replaces named _ verdict session good held =>
      obtain ⟨chose, before⟩ := standing
      rw [before] at asks
      exact ⟨chose.snoc _, verdict, good, asks⟩
  | @launches named _ verdict good gone =>
      obtain ⟨chose, before⟩ := standing
      rw [before] at asks
      exact ⟨chose.snoc _, verdict, good, asks⟩
  | @looks session named chosen =>
      obtain ⟨restart, before⟩ := standing
      rw [before] at asks
      refine ⟨?_, asks⟩
      rw [restart]
      exact ⟨_, List.mem_append_right _ List.mem_cons_self, candidates, chosen⟩
  | follows session named =>
      obtain ⟨chose, verdict, good, before⟩ := standing
      rw [before] at asks
      exact ⟨chose.snoc _, verdict, good, asks⟩

/-- No operation asks twice. -/
theorem Standing.once (standing : Standing t command stage) :
    (dealings t).candidates.length ≤ 1 ∧ (dealings t).launches.length ≤ 1 := by
  cases stage with
  | verifying _ _ =>
      rw [standing.2]
      exact ⟨Nat.le_refl 1, Nat.zero_le 1⟩
  | stopping _ next =>
      cases next with
      | start =>
          rw [standing.2]
          exact ⟨Nat.zero_le 1, Nat.zero_le 1⟩
      | launch _ =>
          obtain ⟨_, _, _, dealt⟩ := standing
          rw [dealt]
          exact ⟨Nat.le_refl 1, Nat.zero_le 1⟩
      | _ =>
          have dealt : dealings t = ⟨[], [], []⟩ := standing
          rw [dealt]
          exact ⟨Nat.zero_le 1, Nat.zero_le 1⟩
  | launching _ _ =>
      obtain ⟨_, _, _, dealt⟩ := standing
      rw [dealt]
      exact ⟨Nat.le_refl 1, Nat.le_refl 1⟩
  | opening _ _ _ =>
      have dealt : dealings t = ⟨[], [], []⟩ := standing
      rw [dealt]
      exact ⟨Nat.zero_le 1, Nat.zero_le 1⟩

/-! ## A whole run -/

/-- The operation with the number `k` arrived, saw the given surroundings, and was accepted as the
command. -/
def Arrived (a : List Scene) (k : Nat) (o : Operation) (s : Surroundings) (command : Command) :
    Prop :=
  command = o.command s ∧
    ∃ n told, ⟨n, s, .arrived k o told (.inr command)⟩ ∈ a

namespace Crowd

variable {c₀ c c' : Crowd} {a : List Scene} {e : Happening}

/-- Who has the controller after a turn waits at its end. -/
theorem waiting_of_holder_turned {j : Nat} (holds : (c.turned j turn).holder = some (k, stage)) :
    j = k ∧ turn.progress = .waiting stage := by
  rw [holder_turned] at holds
  cases ends : turn.progress with
  | waiting _ =>
      rw [ends] at holds
      cases holds
      exact ⟨rfl, rfl⟩
  | finished _ =>
      rw [ends] at holds
      cases holds

/-- Who asks for a launch has the controller, and waits for the server. -/
theorem Move.holder_of_calls (move : Move settings c e c') {session : Id} {interpreter : String}
    (asks : (session, interpreter) ∈ e.calls) :
    ∃ k, c'.holder = some (k, .launching session interpreter) := by
  have stage_eq : ∀ progress : Progress, (session, interpreter) ∈ askedLaunch progress.stage? →
      progress.stage? = some (.launching session interpreter) := by
    intro progress asks
    match progress with
    | .waiting (.launching _ _) =>
        cases List.mem_singleton.mp asks
        rfl
  cases move with
  | dismiss _ _ => cases asks
  | queue _ _ => cases asks
  | @begin k _ _ _ _ _ _ =>
      refine ⟨k, ?_⟩
      rw [holder_turned, stage_eq _ asks]
      rfl
  | @answer k _ _ _ _ =>
      refine ⟨k, ?_⟩
      rw [holder_turned, stage_eq _ asks]
      rfl

namespace Account

theorem follows (run : Account settings c₀ a c) : ∀ x ∈ a, x.Follows settings := by
  induction run with
  | nil =>
      intro x member
      cases member
  | snoc _ _ _ follows ih =>
      intro y member
      rcases List.mem_append.mp member with earlier | last
      · exact ih y earlier
      · rwa [List.mem_singleton.mp last]

/-- A command that waits for the controller comes from an operation that arrived. -/
theorem arrived (run : Account settings c₀ a c) (empty : c₀.line = [])
    (waits : (k, command) ∈ c.line) : ∃ o s, Arrived a k o s command := by
  induction run with
  | nil => simp [empty] at waits
  | @snoc a x c c' past move before follows ih =>
      have earlier : (k, command) ∈ c.line → ∃ o s, Arrived (a ++ [x]) k o s command := by
        intro waits
        obtain ⟨o, s, same, n, told, member⟩ := ih waits
        exact ⟨o, s, same, n, told, List.mem_append_left _ member⟩
      obtain ⟨n, s, e⟩ := x
      -- a command is put into the line when its operation arrives, and nothing else is ever added
      cases move with
      | dismiss accepted j => exact earlier waits
      | @queue s' o told command' accepted j =>
          rcases List.mem_append.mp waits with waits | last
          · exact earlier waits
          · cases List.mem_singleton.mp last
            have same : command = o.command s := (Operation.eq_of_accept follows).2
            exact ⟨o, s, same, n, told, List.mem_append_right _ List.mem_cons_self⟩
      | @begin j _ first behind free line s' =>
          rw [line_turned] at waits
          refine earlier ?_
          rw [line]
          rcases List.mem_append.mp waits with first | behind
          · exact List.mem_append_left _ first
          · exact List.mem_append_right _ (List.mem_cons_of_mem _ behind)
      | answer holds s' a =>
          rw [line_turned] at waits
          exact earlier waits

/-- **The operation that has the controller stands where its stage says**, and the tenure is its
own. -/
theorem standing (run : Account settings c₀ a c) (free : c₀.holder = none) (empty : c₀.line = [])
    (holds : c.holder = some (k, stage)) :
    ∃ command, (∃ o s, Arrived a k o s command) ∧ IsTenure k command (tenure a) ∧
      Standing (tenure a) command stage := by
  -- arrivals leave the tenure alone, and each turn leads from one stage to the next
  induction run generalizing k stage with
  | nil => exact absurd (free.symm.trans holds) (by simp)
  | @snoc a x c c' past move before follows ih =>
      have later : ∀ {k command}, (∃ o s, Arrived a k o s command) →
          ∃ o s, Arrived (a ++ [x]) k o s command := by
        rintro k command ⟨o, s, same, n, told, member⟩
        exact ⟨o, s, same, n, told, List.mem_append_left _ member⟩
      rw [tenure_snoc]
      obtain ⟨n, s, e⟩ := x
      cases move with
      | dismiss accepted j =>
          obtain ⟨command, from_op, rest⟩ := ih holds
          exact ⟨command, later from_op, rest⟩
      | queue accepted j =>
          obtain ⟨command, from_op, rest⟩ := ih holds
          exact ⟨command, later from_op, rest⟩
      | @begin j command first behind idle line s' =>
          obtain ⟨rfl, waits⟩ := waiting_of_holder_turned holds
          have waited : (j, command) ∈ c.line := by
            rw [line]
            exact List.mem_append_right _ List.mem_cons_self
          exact ⟨command, later (past.arrived empty waited), isTenure_began rfl,
            standing_begin rfl follows waits⟩
      | @answer j earlier held s' answer =>
          obtain ⟨rfl, waits⟩ := waiting_of_holder_turned holds
          obtain ⟨command, from_op, tenured, stands⟩ := ih held
          exact ⟨command, later from_op, tenured.snoc rfl, stands.resume rfl follows waits⟩

/-- **In a tenure at most one verdict is asked for, and at most one launch.** -/
theorem once (run : Account settings c₀ a c) (free : c₀.holder = none) (empty : c₀.line = []) :
    (dealings (tenure a)).candidates.length ≤ 1 ∧ (dealings (tenure a)).launches.length ≤ 1 := by
  have one : ∀ stage : Option Stage,
      (askedVerdict stage).length ≤ 1 ∧ (askedLaunch stage).length ≤ 1 := by
    intro stage
    constructor
    · unfold askedVerdict
      split <;> simp
    · unfold askedLaunch
      split <;> simp
  induction run with
  | nil => exact ⟨Nat.zero_le 1, Nat.zero_le 1⟩
  | @snoc a x c c' past move before follows ih =>
      rw [tenure_snoc]
      obtain ⟨n, s, e⟩ := x
      cases move with
      | dismiss accepted j => exact ih
      | queue accepted j => exact ih
      | begin idle line s' =>
          rw [Scene.join, dealings_began rfl]
          exact one _
      | @answer j stage held s' answer =>
          obtain ⟨command, _, _, stands⟩ := past.standing free empty held
          cases ends : (c.controller.resume s' stage answer).progress with
          | waiting stage' => exact (stands.resume rfl follows ends).once
          | finished result =>
              -- the last turn asks for nothing
              rw [Scene.join, dealings_answered rfl, ends]
              show ((dealings (tenure a)).candidates ++ []).length ≤ 1 ∧
                ((dealings (tenure a)).launches ++ []).length ≤ 1
              rw [List.append_nil, List.append_nil]
              exact ih

end Account

end Crowd

/-! ## The main statement -/

/-- **Nothing unverified is launched, and the right candidate is.** Along every account of a run:

* when a launch is asked for, all that has happened since an operation got the controller are the
  turns of that one operation; it has asked for one verdict, on the interpreter of the launch, has
  heard that it is compatible, and has asked for no other launch;
* for a start and a restart this interpreter was the preferred one when the verdict was asked for,
  or the active one of the host where none was preferred; for a change and a selection it is what
  the selection stood for when the operation arrived; no other operation launches;
* at no time has an operation asked for more than one verdict or more than one launch;
* a start that finds neither a preferred nor an active interpreter is over at once, with the
  controller as it was. -/
theorem nothing_unverified_is_launched {settings : Settings} {s₀ : Surroundings} {a : List Scene}
    {c : Crowd} (run : Account settings (.initial settings s₀) a c) :
    (∀ (past : List Scene) (x : Scene) (session : Id) (interpreter : String),
      past ++ [x] <+: a → (session, interpreter) ∈ x.happening.calls →
      ∃ (k : Nat) (command : Command) (o : Operation) (s : Surroundings) (v : Verdict),
        IsTenure k command (tenure (past ++ [x])) ∧ Arrived (past ++ [x]) k o s command ∧
        v.isCompatible = true ∧
        dealings (tenure (past ++ [x]))
          = ⟨[interpreter], [(interpreter, v)], [(session, interpreter)]⟩ ∧
        match o with
        | .activate | .start | .restart =>
          ∃ y ∈ tenure (past ++ [x]), y.happening.candidates = [interpreter] ∧
            y.controller.preferred.or y.surroundings.active = some interpreter
        | .select selection | .changed selection => interpreter = s.resolve selection
        | _ => False) ∧
    (∀ past : List Scene, past <+: a →
      (dealings (tenure past)).candidates.length ≤ 1 ∧
      (dealings (tenure past)).launches.length ≤ 1) ∧
    (∀ x ∈ a, ∀ (k : Nat) (turn : Turn), x.happening = .began k .start turn →
      x.controller.preferred = none → x.surroundings.active = none →
      turn = ⟨x.controller, [notice .selectInterpreter none],
        .finished (.failed .noInterpreter)⟩) := by
  refine ⟨?_, ?_, ?_⟩
  · intro past x session interpreter begins asks
    obtain ⟨m, run'⟩ := run.past begins
    obtain ⟨_, _, move, _, _⟩ := run'.of_snoc
    obtain ⟨k, holds⟩ := move.holder_of_calls asks
    obtain ⟨command, ⟨o, s, arrived⟩, tenured, chose, v, good, dealt⟩ := run'.standing rfl rfl holds
    refine ⟨k, command, o, s, v, tenured, arrived, good, dealt, ?_⟩
    -- which candidates the command can have chosen depends on the operation
    rw [arrived.1] at chose
    cases o with
    | activate | start | restart => exact chose
    | select selection | changed selection => exact chose
    | _ => exact chose
  · intro past begins
    obtain ⟨m, run'⟩ := run.past begins
    exact run'.once rfl rfl
  · intro x member k turn began nonePreferred noneActive
    have follows := run.follows x member
    obtain ⟨n, s, e⟩ := x
    cases began
    have turn_eq : turn = n.start s := follows
    rw [turn_eq, start, nonePreferred, noneActive]
    rfl

/-- A user selects an interpreter on which the launch fails; a restart verifies and launches the
same one, though the host's active interpreter is another. -/
theorem nothing_unverified_is_launched_restart :
    ∃ (a : List Scene) (x : Scene) (c : Crowd) (v : Verdict),
      Account {} (.initial {} simpleHost) (a ++ [x]) c ∧
      x.happening.calls = [(⟨2⟩, "/opt/python")] ∧ x.surroundings.active = some "/venv/bin/python" ∧
      v.isCompatible = true ∧
      dealings (tenure (a ++ [x]))
        = ⟨["/opt/python"], [("/opt/python", v)], [(⟨2⟩, "/opt/python")]⟩ := by
  have goesOn : ∀ {a : List Scene} {c c' : Crowd} {e : Happening},
      Account {} (.initial {} simpleHost) a c → Move {} c e c' →
      Scene.Follows {} ⟨c.controller, simpleHost, e⟩ →
      Account {} (.initial {} simpleHost) (a ++ [⟨c.controller, simpleHost, e⟩]) c' :=
    fun past move follows => .snoc past move rfl follows
  have selected := goesOn .nil (.queue (o := .select "/opt/python") (s := simpleHost) rfl 0) rfl
  have verifies := goesOn selected
    (@Move.begin _ _ 0 (.switch "/opt/python" true) [] [] rfl rfl simpleHost) rfl
  have launches := goesOn verifies
    (@Move.answer _ _ 0 (.verifying "/opt/python" true) rfl simpleHost (Verdict.compatible [])) rfl
  have failed := goesOn launches (@Move.answer _ _ 0 (.launching ⟨1⟩ "/opt/python") rfl simpleHost
    (Except.error ["spawn refused"])) rfl
  have arrived := goesOn failed (.queue (o := .restart) (s := simpleHost) rfl 1) rfl
  have restarts := goesOn arrived (@Move.begin _ _ 1 .restart [] [] rfl rfl simpleHost) rfl
  have relaunches := goesOn restarts (@Move.answer _ _ 1 (.verifying "/opt/python" false) rfl
    simpleHost (Verdict.compatible [])) rfl
  obtain ⟨_, _, _, _, v, _, _, good, dealt, _⟩ := (nothing_unverified_is_launched relaunches).1 _ _
    ⟨2⟩ "/opt/python" (List.prefix_refl _) List.mem_cons_self
  exact ⟨_, _, _, v, relaunches, rfl, rfl, good, dealt⟩

end Gatekeeper.Session
