import Gatekeeper.Proofs.Session.Chronicle

set_option autoImplicit false

/-!
# The performance of a command

A **performance** is all that one command does with the controller, from the moment it gets it: the
answers of the parts, in order, and the turn it has come to with the effects of all its turns. The
surroundings may change from turn to turn. Every turn of a run belongs to a performance that began
when the controller was free (`Crowd.Chronicle.underWay_of_move`), however many operations overlap,
and so does a command that is run on its own (`Running.perform_performance`). What holds of every
performance holds of every operation.
-/

namespace Gatekeeper.Session

/-! ## Performances -/

/-- What a part of the controller is asked for. The stage also says how the operation goes on, which
no part sees. -/
inductive Request
  | verify (candidate : String)
  | shutdown (session : Id)
  | launch (session : Id) (interpreter : String)
  | document (session : Id) (path text : String)
  deriving DecidableEq, Repr

def Stage.request : Stage → Request
  | verifying candidate _ => .verify candidate
  | stopping session _ => .shutdown session
  | launching session interpreter => .launch session interpreter
  | opening session path text => .document session path text

/-- A stage with the answer that ended it. -/
structure Exchange where
  stage : Stage
  answer : stage.Answer

def Exchange.request (x : Exchange) : Request := x.stage.request

/-- `Performance settings n command xs t`: the command got the controller when it was `n`, the parts
have given the answers `xs`, and it has come to `t`, the effects of all its turns taken together. -/
inductive Performance (settings : Settings) (n : Controller) (command : Command) :
    List Exchange → Turn → Prop
  | begin (s : Surroundings) : Performance settings n command [] (n.begin settings s command)
  | resume {xs : List Exchange} {t : Turn} {stage : Stage}
      (past : Performance settings n command xs t) (waits : t.progress = .waiting stage)
      (s : Surroundings) (a : stage.Answer) :
      Performance settings n command (xs ++ [⟨stage, a⟩])
        ((t.state.resume s stage a).after t.effects)

/-- **An answer that ends the operation is the last one.** -/
theorem Performance.last_answer {settings : Settings} {n : Controller} {command : Command}
    {xs : List Exchange} {t : Turn} {stage : Stage} {a : stage.Answer}
    (performed : Performance settings n command xs t) (answered : ⟨stage, a⟩ ∈ xs)
    (ends : ∀ (m : Controller) (s : Surroundings), (m.resume s stage a).progress.stage? = none) :
    ∃ past u s, xs = past ++ [⟨stage, a⟩] ∧ Performance settings n command past u ∧
      u.progress = .waiting stage ∧ t = (u.state.resume s stage a).after u.effects := by
  induction performed with
  | begin _ => cases answered
  | @resume xs t stage' past waits s b ih =>
      rcases List.mem_append.mp answered with before | last
      · -- the operation would have been over before the answer that came last
        obtain ⟨_, u, s', _, _, _, rfl⟩ := ih before
        have finished : Progress.stage? (.waiting stage') = none := waits ▸ ends u.state s'
        cases finished
      · cases List.mem_singleton.mp last
        exact ⟨xs, t, s, rfl, past, waits, rfl⟩

/-! ## Every turn belongs to a performance -/

namespace Crowd

/-- In the course of `h` the command with the number `k` got the controller, which was free, and it
has come to `t`. -/
def UnderWay (settings : Settings) (c₀ : Crowd) (h : History) (k : Nat) (t : Turn) : Prop :=
  ∃ past m command xs, past <+: h ∧ Chronicle settings c₀ past m ∧ m.holder = none ∧
    (k, command) ∈ m.line ∧ Performance settings m.controller command xs t

namespace Chronicle

variable {settings : Settings} {c₀ c c' : Crowd} {h : History} {e : Happening} {t : Turn}

theorem underWay_snoc {k : Nat} (u : UnderWay settings c₀ h k t) :
    UnderWay settings c₀ (h ++ [e]) k t := by
  obtain ⟨past, m, command, xs, shorter, rest⟩ := u
  exact ⟨past, m, command, xs, shorter.trans (List.prefix_append _ _), rest⟩

/-- A command that gets the controller takes the first turn of a performance. -/
theorem underWay_began {k : Nat} {command : Command} (run : Chronicle settings c₀ h c)
    (move : Move settings c (.began k command t) c') : UnderWay settings c₀ h k t := by
  cases move with
  | begin free waits s =>
      have member : (k, command) ∈ c.line := by
        rw [waits]
        exact List.mem_append_right _ List.mem_cons_self
      exact ⟨h, c, command, [], List.prefix_refl _, run, free, member, .begin s⟩

/-- An answer continues the performance that waits for it. -/
theorem underWay_answered {k : Nat} {stage : Stage} {a : stage.Answer} {effects : List Effect}
    (u : UnderWay settings c₀ h k ⟨c.controller, effects, .waiting stage⟩)
    (move : Move settings c (.answered k stage a t) c') :
    UnderWay settings c₀ h k (t.after effects) := by
  cases move with
  | answer holds s _ =>
      obtain ⟨past, m, command, xs, shorter, first, free, member, performed⟩ := u
      exact ⟨past, m, command, _, shorter, first, free, member, performed.resume rfl s a⟩

/-- If the command waits after the turn, the crowd says where. -/
theorem underWay_turned {j k : Nat} {stage : Stage} {effects : List Effect}
    (u : UnderWay settings c₀ h j (t.after effects))
    (holds : (c.turned j t).holder = some (k, stage)) :
    ∃ es, UnderWay settings c₀ h k ⟨(c.turned j t).controller, es, .waiting stage⟩ := by
  rw [holder_turned] at holds
  rw [controller_turned]
  obtain ⟨state, own, progress⟩ := t
  cases progress with
  | waiting stage' =>
      cases holds
      exact ⟨effects ++ own, u⟩
  | finished result => cases holds

/-- The operation that has the controller got it when it was free. -/
theorem underWay_of_holder (run : Chronicle settings c₀ h c) (free : c₀.holder = none)
    {k : Nat} {stage : Stage} (holds : c.holder = some (k, stage)) :
    ∃ effects, UnderWay settings c₀ h k ⟨c.controller, effects, .waiting stage⟩ := by
  -- the performance stays the same until a turn hands the controller on
  induction run generalizing k stage with
  | nil => exact absurd (free.symm.trans holds) (by simp)
  | snoc past move ih =>
      have same := move
      cases move with
      | dismiss accepted _ =>
          obtain ⟨effects, u⟩ := ih holds
          exact ⟨effects, underWay_snoc u⟩
      | queue accepted _ =>
          obtain ⟨effects, u⟩ := ih holds
          exact ⟨effects, underWay_snoc u⟩
      | begin idle waits s =>
          have u : UnderWay settings _ _ _ (Turn.after [] _) := underWay_began past same
          obtain ⟨effects, u⟩ := underWay_turned u holds
          exact ⟨effects, underWay_snoc u⟩
      | answer holds' s a =>
          obtain ⟨effects, u⟩ := ih holds'
          obtain ⟨effects, u⟩ := underWay_turned (underWay_answered u same) holds
          exact ⟨effects, underWay_snoc u⟩

/-- **Every turn of a run belongs to a performance** that began when the controller was free. -/
theorem underWay_of_move (run : Chronicle settings c₀ h c) (free : c₀.holder = none)
    (move : Move settings c e c') (turn : e.turn? = some t) :
    ∃ k effects, UnderWay settings c₀ h k (t.after effects) ∧ c'.controller = t.state := by
  have same := move
  cases move with
  | dismiss accepted _ => cases turn
  | queue accepted _ => cases turn
  | @begin k _ _ _ idle waits s =>
      cases turn
      exact ⟨k, [], underWay_began run same, controller_turned _ _ _⟩
  | @answer k _ holds s a =>
      cases turn
      obtain ⟨effects, u⟩ := run.underWay_of_holder free holds
      exact ⟨k, effects, underWay_answered u same, controller_turned _ _ _⟩

end Chronicle

end Crowd

namespace Running

variable {σ : Type} (p : Parts σ) {settings : Settings} {n : Controller} {command : Command}

/-- A performance is run on to its end. -/
theorem drive_performance (r : Running σ) (progress : Progress) (xs : List Exchange)
    (effects : List Effect)
    (past : Performance settings n command xs ⟨r.controller, effects, progress⟩) :
    ∃ ys es, Performance settings n command ys
      ⟨(drive p r progress).1.controller, es, .finished (drive p r progress).2⟩ := by
  induction r, progress using drive.induct p generalizing xs effects with
  | case1 r result =>
      rw [drive]
      exact ⟨xs, effects, past⟩
  | case2 r stage a world asked turn ih =>
      rw [drive]
      simp only [asked]
      exact ih _ _ (past.resume rfl (p.surroundings world) a)

/-- **A command that is run on its own is performed**, to its end. -/
theorem perform_performance (r : Running σ) :
    ∃ xs effects, Performance settings r.controller command xs
      ⟨(r.perform p settings command).1.controller, effects,
        .finished (r.perform p settings command).2⟩ := by
  unfold perform
  exact drive_performance p _ _ [] _ (.begin (p.surroundings r.parts))

end Running

end Gatekeeper.Session
