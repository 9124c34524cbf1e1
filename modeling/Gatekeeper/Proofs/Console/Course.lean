import Gatekeeper.Console.Schedule
import Gatekeeper.Proofs.Session.Chronicle
import Mathlib.Data.List.Nodup
import Mathlib.Data.List.Perm.Basic

set_option autoImplicit false

/-!
# The course of a session

A **course** is what happens in a session, step by step: lines are read and errands begun, files are
read, errands ask for the controller, get it, and are answered. Which of the errands goes on next is
left open. Only the controller is fair: the errands that have asked for it get it in that order.
What a course keeps in every step is `Kept`.
-/

namespace Gatekeeper.Console.Floor

open Session

/-! ## Logs -/

/-- Something that is seen to happen. -/
inductive Entry
  /-- An errand is begun. -/
  | sent (number : Nat) (duty : Duty)
  /-- An errand ends because its file cannot be read. -/
  | dropped (number : Nat)
  /-- Something happens at the controller. -/
  | happened (e : Happening)

namespace Entry

@[simp] def sent? : Entry → Option Nat
  | sent k _ => some k
  | _ => none

/-- The errand that from now on needs nothing but the controller, if it needs anything. -/
@[simp] def settled? : Entry → Option Nat
  | dropped k => some k
  | happened (.arrived k _ _ _) => some k
  | _ => none

/-- The errand that asks for the controller and has to wait until it gets it. -/
@[simp] def asked? : Entry → Option Nat
  | happened (.arrived k _ _ (.inr _)) => some k
  | _ => none

/-- The errand that gets the controller. -/
@[simp] def begun? : Entry → Option Nat
  | happened (.began k _ _) => some k
  | _ => none

/-- An errand settles neither when it is begun nor when it gets the controller. -/
theorem silent_of_settled {e : Entry} {k : Nat} (settles : e.settled? = some k) :
    e.sent? = none ∧ e.begun? = none := by
  cases e with
  | sent j duty => cases settles
  | dropped j => exact ⟨rfl, rfl⟩
  | happened e =>
      cases e with
      | began j command turn => cases settles
      | _ => exact ⟨rfl, rfl⟩

/-- The errand that takes a turn. -/
def turned? : Entry → Option Nat
  | happened (.began k _ _) => some k
  | happened (.answered k _ _ _) => some k
  | _ => none

/-- The errand that takes a turn at whose end it asks for a launch. -/
def launcher? : Entry → Option Nat
  | happened e => if e.calls = [] then none else (happened e).turned?
  | _ => none

theorem calls_of_launcher {e : Happening} (silent : (happened e).launcher? = none) :
    e.calls = [] := by
  rw [launcher?] at silent
  split at silent
  · assumption
  · cases e with
    | arrived k o effects outcome => rfl
    | _ => cases silent

/-- A turn that asks for a launch ends where the server is waited for. -/
theorem waits_of_askedLaunch {turn : Turn} (asks : askedLaunch turn.progress.stage? ≠ []) :
    ∃ session interpreter, turn.progress = .waiting (.launching session interpreter) := by
  cases ends : turn.progress with
  | waiting stage =>
      rw [ends] at asks
      cases stage with
      | launching session interpreter => exact ⟨session, interpreter, rfl⟩
      | _ => exact absurd rfl asks
  | finished result =>
      rw [ends] at asks
      exact absurd rfl asks

/-- At the end of its turn the errand waits for the server. -/
theorem waits_of_launcher {e : Happening} {k : Nat} (asks : (happened e).launcher? = some k) :
    (happened e).turned? = some k ∧ ∃ turn session interpreter, e.turn? = some turn ∧
      turn.progress = .waiting (.launching session interpreter) := by
  rw [launcher?] at asks
  split at asks
  · cases asks
  · rename_i calls
    refine ⟨asks, ?_⟩
    cases e with
    | arrived j o effects outcome => cases asks
    | began j command turn =>
        obtain ⟨session, interpreter, waits⟩ := waits_of_askedLaunch calls
        exact ⟨turn, session, interpreter, rfl, waits⟩
    | answered j stage a turn =>
        obtain ⟨session, interpreter, waits⟩ := waits_of_askedLaunch calls
        exact ⟨turn, session, interpreter, rfl, waits⟩

/-- What happens at the controller. -/
@[simp] def happening? : Entry → Option Happening
  | happened e => some e
  | _ => none

end Entry

/-- What was seen to happen, in order. -/
abbrev Log := List Entry

namespace Log

variable (h k : Log) (e : Entry)

def sent : List Nat := h.filterMap Entry.sent?

def settled : List Nat := h.filterMap Entry.settled?

def asked : List Nat := h.filterMap Entry.asked?

def begun : List Nat := h.filterMap Entry.begun?

/-- The errands that asked for a launch. -/
def launchers : List Nat := h.filterMap Entry.launcher?

/-- What happened at the controller. -/
def happenings : History := h.filterMap Entry.happening?

theorem filterMap_snoc {α : Type} (view : Entry → Option α) :
    (h ++ [e]).filterMap view = h.filterMap view ++ (view e).toList := by
  rw [List.filterMap_append, List.filterMap_cons, List.filterMap_nil]
  cases view e <;> rfl

@[simp] theorem sent_snoc : sent (h ++ [e]) = h.sent ++ e.sent?.toList := filterMap_snoc h e _

@[simp] theorem settled_snoc : settled (h ++ [e]) = h.settled ++ e.settled?.toList :=
  filterMap_snoc h e _

@[simp] theorem asked_snoc : asked (h ++ [e]) = h.asked ++ e.asked?.toList := filterMap_snoc h e _

@[simp] theorem begun_snoc : begun (h ++ [e]) = h.begun ++ e.begun?.toList := filterMap_snoc h e _

@[simp] theorem happenings_snoc : happenings (h ++ [e]) = h.happenings ++ e.happening?.toList :=
  filterMap_snoc h e _

theorem asked_append : asked (h ++ k) = h.asked ++ k.asked := List.filterMap_append

theorem begun_append : begun (h ++ k) = h.begun ++ k.begun := List.filterMap_append

theorem asked_sublist : h.asked.Sublist h.settled := by
  induction h with
  | nil => exact .slnil
  | cons e h ih =>
      cases e with
      | happened e =>
          cases e with
          | arrived k o effects outcome =>
              cases outcome with
              | inl result => exact ih.cons k
              | inr command => exact ih.cons_cons k
          | _ => exact ih
      | dropped k => exact ih.cons k
      | sent k duty => exact ih

end Log

/-! ## Steps -/

/-- The line asks for nothing that needs an errand, and does not end the session. -/
def Idle (line : String) : Prop :=
  ∀ c, Command.read line = .ok (some c) → c.duty? = none ∧ c ≠ .quit

/-- What can happen next, and what is seen of it. -/
inductive Step (settings : Settings) : Floor → Option Entry → Floor → Prop
  /-- A line is read that needs an errand. -/
  | send {f : Floor} {line : String} {rest : List String} {c : Command} {duty : Duty}
      (isOpen : f.closed = false) (first : f.lines = line :: rest)
      (reads : Command.read line = .ok (some c)) (needs : c.duty? = some duty) :
      Step settings f (some (.sent f.next duty)) ({ f with lines := rest }.send duty)
  /-- Another line is read. -/
  | pass {f : Floor} {line : String} {rest : List String} (isOpen : f.closed = false)
      (first : f.lines = line :: rest) (idle : Idle line) :
      Step settings f none { f with lines := rest }
  /-- The user quits. -/
  | quit {f : Floor} {line : String} {rest : List String} (isOpen : f.closed = false)
      (first : f.lines = line :: rest) (reads : Command.read line = .ok (some .quit)) :
      Step settings f (some (.sent f.next (.operation .deactivate))) f.close
  /-- The input ends. -/
  | close {f : Floor} (isOpen : f.closed = false) (ends : f.lines = []) :
      Step settings f (some (.sent f.next (.operation .deactivate))) f.close
  /-- A server is reported gone. -/
  | report {f : Floor} (isOpen : f.closed = false) (session : Id) :
      Step settings f (some (.sent f.next (.operation (.exited session))))
        (f.send (.operation (.exited session)))
  /-- A file has been read. -/
  | read {f : Floor} {k : Nat} {path : String} {before behind : List Errand}
      (reads : f.errands = before ++ ⟨k, .document path⟩ :: behind) (absolute text : String) :
      Step settings f none
        { f with errands := before ++ ⟨k, .operation (.openDocument absolute text)⟩ :: behind }
  /-- A file cannot be read. -/
  | drop {f : Floor} {k : Nat} {path : String} {before behind : List Errand}
      (reads : f.errands = before ++ ⟨k, .document path⟩ :: behind) :
      Step settings f (some (.dropped k)) { f with errands := before ++ behind }
  /-- An errand asks for the controller. -/
  | ask {f : Floor} {k : Nat} {o : Operation} {before behind : List Errand} {effects : List Effect}
      {outcome : Result ⊕ Session.Command} {crowd : Crowd}
      (ready : f.errands = before ++ ⟨k, .operation o⟩ :: behind)
      (move : Crowd.Move settings f.crowd (.arrived k o effects outcome) crowd) :
      Step settings f (some (.happened (.arrived k o effects outcome)))
        { f with errands := before ++ behind, crowd }
  /-- The errand that has waited longest gets the controller. -/
  | begin {f : Floor} {k : Nat} {command : Session.Command} {rest : List (Nat × Session.Command)}
      (free : f.crowd.holder = none) (first : f.crowd.line = (k, command) :: rest)
      (s : Surroundings) {turn : Turn}
      (takes : f.crowd.controller.begin settings s command = turn) :
      Step settings f (some (.happened (.began k command turn)))
        { f with crowd := { f.crowd with line := rest }.turned k turn }
  /-- The errand that has the controller gets an answer. -/
  | answer {f : Floor} {k : Nat} {stage : Stage} {a : stage.Answer} {turn : Turn} {crowd : Crowd}
      (move : Crowd.Move settings f.crowd (.answered k stage a turn) crowd) :
      Step settings f (some (.happened (.answered k stage a turn))) { f with crowd }

/-- `Course settings f₀ h f`: from `f₀`, what is seen in `h` led to `f`. -/
inductive Course (settings : Settings) (f₀ : Floor) : Log → Floor → Prop
  | nil : Course settings f₀ [] f₀
  | snoc {h : Log} {e : Option Entry} {f f' : Floor} (past : Course settings f₀ h f)
      (step : Step settings f e f') : Course settings f₀ (h ++ e.toList) f'

namespace Course

variable {settings : Settings} {f₀ f f' : Floor} {h k : Log}

theorem trans (first : Course settings f₀ h f) (second : Course settings f k f') :
    Course settings f₀ (h ++ k) f' := by
  induction second with
  | nil => rwa [List.append_nil]
  | snoc _ step ih =>
      rw [← List.append_assoc]
      exact .snoc ih step

/-- A course can be cut where something is seen. -/
theorem cut {e : Entry} (course : Course settings f₀ (h ++ e :: k) f) :
    ∃ m m', Course settings f₀ h m ∧ Step settings m (some e) m' ∧ Course settings m' k f := by
  -- by induction on the course, whose last step is seen or not, and is the one to be found or not
  generalize all : h ++ e :: k = g at course
  induction course generalizing k with
  | nil => simp at all
  | @snoc g seen m m' past step ih =>
      cases seen with
      | none =>
          obtain ⟨n, n', first, here, second⟩ := ih (all.trans (List.append_nil g))
          have second := second.snoc step
          rw [Option.toList_none, List.append_nil] at second
          exact ⟨n, n', first, here, second⟩
      | some last =>
          rcases List.eq_nil_or_concat k with rfl | ⟨k', x, rfl⟩
          · obtain ⟨rfl, same⟩ := List.append_inj' all rfl
            cases same
            exact ⟨m, m', past, step, .nil⟩
          · rw [List.concat_eq_append, ← List.cons_append, ← List.append_assoc] at all
            obtain ⟨before, same⟩ := List.append_inj' all rfl
            cases same
            obtain ⟨n, n', first, here, second⟩ := ih before
            rw [List.concat_eq_append]
            exact ⟨n, n', first, here, second.snoc step⟩

/-- **What is seen at the controller is a chronicle of it.** -/
theorem chronicle (course : Course settings f₀ h f) :
    Crowd.Chronicle settings f₀.crowd h.happenings f.crowd := by
  induction course with
  | nil => exact .nil
  | snoc _ step ih =>
      cases step with
      | ask ready move =>
          rw [Option.toList_some, Log.happenings_snoc]
          exact ih.snoc move
      | @begin k command rest free first s turn takes =>
          rw [Option.toList_some, Log.happenings_snoc]
          cases takes
          exact ih.snoc (@Crowd.Move.begin _ _ k command [] rest free first s)
      | answer move =>
          rw [Option.toList_some, Log.happenings_snoc]
          exact ih.snoc move
      | pass _ _ _ =>
          rw [Option.toList_none, List.append_nil]
          exact ih
      | read _ _ _ =>
          rw [Option.toList_none, List.append_nil]
          exact ih
      | _ =>
          rw [Option.toList_some, Log.happenings_snoc]
          exact (List.append_nil _).symm ▸ ih

end Course

/-! ## What a course keeps -/

/-- What is true of a session after the log `h`. -/
structure Kept (h : Log) (f : Floor) : Prop where
  /-- Errands are numbered as they are begun; the activation is the first one. -/
  sent_eq : 0 :: h.sent = List.range f.next
  /-- Every errand that was begun has settled or is still under way. -/
  accounted : (h.settled ++ f.errands.map Errand.number).Perm (List.range f.next)
  /-- The controller is given to the errands in the order in which they asked for it. -/
  served : h.begun ++ f.crowd.line.map Prod.fst = h.asked
  /-- The errand that has the controller is the one that got it last. -/
  holds : ∀ k stage, f.crowd.holder = some (k, stage) → h.begun.getLast? = some k

theorem kept_opening (settings : Settings) (s : Surroundings) (lines : List String) :
    Kept [] (opening settings s lines) where
  sent_eq := rfl
  accounted := .refl _
  served := rfl
  holds := nofun

namespace Kept

variable {settings : Settings} {f f' : Floor} {h : Log} {e : Option Entry}

/-- An errand is begun under a new number. -/
theorem send (kept : Kept h f) (duty duty' : Duty) (lines : List String) (closed : Bool) :
    Kept (h ++ [.sent f.next duty']) { f.send duty with lines, closed } where
  sent_eq := by
    rw [Log.sent_snoc, ← List.cons_append, kept.sent_eq]
    exact List.range_succ.symm
  accounted := by
    have all := kept.accounted.append_right [f.next]
    rw [List.append_assoc, ← List.range_succ] at all
    simpa [Floor.send] using all
  served := by simpa [Floor.send] using kept.served
  holds := by simpa [Floor.send] using kept.holds

/-- An errand settles: it is over, or it waits in line. -/
theorem settle (kept : Kept h f) {before behind : List Errand} {errand : Errand} {e : Entry}
    (here : f.errands = before ++ errand :: behind) (settles : e.settled? = some errand.number)
    {crowd : Crowd} (waits : crowd.line.map Prod.fst = f.crowd.line.map Prod.fst ++ e.asked?.toList)
    (holds : crowd.holder = f.crowd.holder) :
    Kept (h ++ [e]) { f with errands := before ++ behind, crowd } := by
  have silent := e.silent_of_settled settles
  refine ⟨?_, ?_, ?_, ?_⟩
  · rw [Log.sent_snoc, silent.1, Option.toList_none, List.append_nil]
    exact kept.sent_eq
  · refine List.Perm.trans ?_ kept.accounted
    rw [Log.settled_snoc, settles, here, List.append_assoc]
    refine List.Perm.append_left _ ?_
    simpa using (List.perm_middle (a := errand.number)).symm
  · rw [Log.begun_snoc, Log.asked_snoc, silent.2, waits, Option.toList_none, List.append_nil,
      ← List.append_assoc, kept.served]
  · intro k stage
    rw [Log.begun_snoc, silent.2, Option.toList_none, List.append_nil, holds]
    exact kept.holds k stage

/-- **Every step keeps it.** -/
theorem step (kept : Kept h f) (step : Step settings f e f') : Kept (h ++ e.toList) f' := by
  cases step with
  | send isOpen first reads needs => exact kept.send _ _ _ _
  | pass isOpen first idle =>
      rw [Option.toList_none, List.append_nil]
      exact ⟨kept.sent_eq, kept.accounted, kept.served, kept.holds⟩
  | quit isOpen first reads => exact kept.send _ _ _ _
  | close isOpen ends => exact kept.send _ _ _ _
  | report isOpen session => exact kept.send _ _ _ _
  | read reads absolute text =>
      rw [Option.toList_none, List.append_nil]
      refine ⟨kept.sent_eq, ?_, kept.served, kept.holds⟩
      simpa [reads] using kept.accounted
  | drop reads => exact kept.settle reads rfl (List.append_nil _).symm rfl
  | ask ready move =>
      cases move with
      | dismiss accepted k => exact kept.settle ready rfl (List.append_nil _).symm rfl
      | queue accepted k => exact kept.settle ready rfl List.map_append rfl
  | @begin k command rest free first s turn takes =>
      refine ⟨?_, ?_, ?_, ?_⟩
      · simpa using kept.sent_eq
      · simpa using kept.accounted
      · have served := kept.served
        rw [first] at served
        simpa [Crowd.line_turned] using served
      · intro j stage holds
        rw [Crowd.holder_turned] at holds
        obtain ⟨_, _, same⟩ := Option.map_eq_some_iff.mp holds
        cases same
        simp
  -- the errand that has the controller keeps it or gives it back; nobody else gets it
  | @answer k stage a turn crowd move =>
      have before : ∀ stage, f.crowd.holder = some (k, stage) → h.begun.getLast? = some k :=
        kept.holds k
      cases move with
      | answer holder s =>
          refine ⟨?_, ?_, ?_, ?_⟩
          · simpa using kept.sent_eq
          · simpa using kept.accounted
          · simpa [Crowd.line_turned] using kept.served
          · intro j stage' holds
            rw [Crowd.holder_turned] at holds
            obtain ⟨_, _, same⟩ := Option.map_eq_some_iff.mp holds
            cases same
            simpa using before _ holder

end Kept

theorem Course.kept {settings : Settings} {s : Surroundings} {lines : List String} {h : Log}
    {f : Floor} (course : Course settings (opening settings s lines) h f) : Kept h f := by
  induction course with
  | nil => exact kept_opening settings s lines
  | snoc _ step ih => exact ih.step step

end Gatekeeper.Console.Floor
