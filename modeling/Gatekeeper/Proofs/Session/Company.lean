import Gatekeeper.Proofs.Session.Chronicle

set_option autoImplicit false

/-!
# A crowd in company of its parts

Operations that overlap are run on a crowd together with the parts that answer it. What is going to
happen is given as a list of cues: an operation arrives, the part that the controller waits for
answers, or the world around the parts changes. `Running.run` is the special case of one operation
and its answers (`Running.run_eq_play`).

Parts may show a state to others: a `Parts.View` is a function of states under which all that parts
do looks like what other parts do. Then a play of the first looks like a play of the second
(`Parts.View.play`), and the controller cannot tell them apart.
-/

namespace Gatekeeper.Session

variable {ρ σ τ : Type}

/-! ## Plays -/

/-- What happens next, where the world is a `σ`. -/
inductive Cue (σ : Type)
  | arrives (o : Operation)
  /-- The part that the controller waits for, if it waits for one, answers. -/
  | answers
  /-- Something happens to the world that the controller has no part in. -/
  | changes (change : σ → σ)

/-- The same cue in another world, to which changes are carried over. -/
def Cue.carry (lift : (σ → σ) → τ → τ) : Cue σ → Cue τ
  | arrives o => .arrives o
  | answers => .answers
  | changes change => .changes (lift change)

/-- A crowd with the state of its parts. -/
structure Company (σ : Type) where
  crowd : Crowd
  parts : σ
  /-- The number of the next operation. -/
  next : Nat := 0

namespace Company

/-- The company with another view of its parts. -/
def map (f : σ → τ) (w : Company σ) : Company τ := ⟨w.crowd, f w.parts, w.next⟩

/-- Takes over a crowd and has its effects noted. -/
def settle (p : Parts σ) (parts : σ) (next : Nat) (moved : Crowd × List Effect) : Company σ :=
  ⟨moved.1, moved.2.foldl p.note parts, next⟩

/-- Follows a cue. -/
def follow (p : Parts σ) (settings : Settings) (w : Company σ) : Cue σ → Company σ
  | .arrives o =>
    settle p w.parts (w.next + 1) (w.crowd.arrive settings (p.surroundings w.parts) w.next o)
  | .answers =>
    match w.crowd.holder with
    | none => w
    | some (k, stage) =>
      let (a, parts) := p.answer w.parts w.crowd.controller.published stage
      settle p parts w.next (w.crowd.resume settings (p.surroundings parts) k stage a)
  | .changes change => { w with parts := change w.parts }

/-- Follows cues, one after another. -/
def play (p : Parts σ) (settings : Settings) (w : Company σ) (cues : List (Cue σ)) : Company σ :=
  cues.foldl (follow p settings) w

end Company

/-! ## Views -/

namespace Parts

/-- Seen through `f`, the parts `p` do what the parts `q` do. -/
structure View (p : Parts σ) (q : Parts τ) (f : σ → τ) : Prop where
  surroundings (w : σ) : p.surroundings w = q.surroundings (f w)
  note (w : σ) (e : Effect) : f (p.note w e) = q.note (f w) e
  answer (w : σ) (s : Status) (stage : Stage) :
    (p.answer w s stage).map id f = q.answer (f w) s stage

namespace View

variable {p : Parts σ} {q : Parts τ} {f : σ → τ} (v : p.View q f)
include v

theorem notes (effects : List Effect) (w : σ) :
    f (effects.foldl p.note w) = effects.foldl q.note (f w) :=
  (List.foldl_hom f fun w e => (v.note w e).symm).symm

theorem settle (parts : σ) (next : Nat) (moved : Crowd × List Effect) :
    (Company.settle p parts next moved).map f = Company.settle q (f parts) next moved := by
  rw [Company.settle, Company.map, v.notes, Company.settle]

/-- A cue looks the same through a view, if changes do. -/
theorem follow (settings : Settings) {lift : (ρ → ρ) → σ → σ} {lift' : (ρ → ρ) → τ → τ}
    (same : ∀ change w, f (lift change w) = lift' change (f w)) (w : Company σ) (cue : Cue ρ) :
    (w.follow p settings (cue.carry lift)).map f =
      (w.map f).follow q settings (cue.carry lift') := by
  cases cue with
  | arrives o =>
      simp only [Cue.carry, Company.follow]
      rw [v.settle, v.surroundings]
      rfl
  | answers =>
      simp only [Cue.carry, Company.follow, Company.map]
      cases holder : w.crowd.holder with
      | none => rfl
      | some held =>
          obtain ⟨k, stage⟩ := held
          -- both sides get the same answer, and go on from states that look the same
          have answer := v.answer w.parts w.crowd.controller.published stage
          simp only [← answer, Prod.map, id]
          rw [← v.surroundings]
          exact v.settle _ _ _
  | changes change => simp only [Cue.carry, Company.follow, Company.map, same]

/-- **A play looks the same through a view.** -/
theorem play (settings : Settings) {lift : (ρ → ρ) → σ → σ} {lift' : (ρ → ρ) → τ → τ}
    (same : ∀ change w, f (lift change w) = lift' change (f w)) (w : Company σ)
    (cues : List (Cue ρ)) :
    (w.play p settings (cues.map (Cue.carry lift))).map f =
      (w.map f).play q settings (cues.map (Cue.carry lift')) := by
  simp only [Company.play, List.foldl_map]
  exact (List.foldl_hom (Company.map f) fun w cue => (v.follow settings same w cue).symm).symm

end View

/-- What holds of the state of the parts stays true, whatever they are told or asked. -/
structure Keeps (p : Parts σ) (holds : σ → Prop) : Prop where
  note {w : σ} (e : Effect) : holds w → holds (p.note w e)
  answer {w : σ} (s : Status) (stage : Stage) : holds w → holds (p.answer w s stage).2

namespace Keeps

variable {p : Parts σ} {holds : σ → Prop} (keeps : p.Keeps holds)
include keeps

theorem notes (effects : List Effect) {w : σ} (before : holds w) :
    holds (effects.foldl p.note w) := by
  induction effects generalizing w with
  | nil => exact before
  | cons e effects ih => exact ih (keeps.note e before)

theorem follow (settings : Settings) {lift : (ρ → ρ) → σ → σ}
    (changes : ∀ change w, holds w → holds (lift change w)) (w : Company σ) (cue : Cue ρ)
    (before : holds w.parts) : holds (w.follow p settings (cue.carry lift)).parts := by
  cases cue with
  | arrives o => exact keeps.notes _ before
  | answers =>
      simp only [Cue.carry, Company.follow]
      split
      · exact before
      · exact keeps.notes _ (keeps.answer _ _ before)
  | changes change => exact changes change _ before

/-- **What the parts keep stays true in every play.** -/
theorem play (settings : Settings) {lift : (ρ → ρ) → σ → σ}
    (changes : ∀ change w, holds w → holds (lift change w)) (w : Company σ)
    (cues : List (Cue ρ)) (before : holds w.parts) :
    holds (w.play p settings (cues.map (Cue.carry lift))).parts := by
  induction cues generalizing w with
  | nil => exact before
  | cons cue cues ih => exact ih _ (keeps.follow settings changes w cue before)

end Keeps

end Parts

/-! ## An operation on its own -/

namespace Crowd

variable (c : Crowd) (k : Nat)

/-- Nothing remains of a turn that ended at a stage but the state after it. -/
theorem turned_waiting (n : Controller) (effects : List Effect) (stage : Stage) (t : Turn) :
    (c.turned k ⟨n, effects, .waiting stage⟩).turned k t = c.turned k t := by
  obtain ⟨m, own, progress⟩ := t
  cases progress <;> rfl

variable {c}

theorem serve_nil (settings : Settings) (s : Surroundings) (alone : c.line = []) :
    c.serve settings s [] = (c, []) := by
  rw [serve, ← alone]

/-- Where nobody waits, an answer leads to a turn and to nothing else. -/
theorem resume_alone (settings : Settings) (s : Surroundings) (alone : c.line = [])
    (n : Controller) (effects : List Effect) (stage : Stage) (a : stage.Answer) :
    (c.turned k ⟨n, effects, .waiting stage⟩).resume settings s k stage a =
      (c.turned k (n.resume s stage a), (n.resume s stage a).effects) := by
  have still : (c.turned k (n.resume s stage a)).line = [] := (line_turned c k _).trans alone
  have served := serve_nil settings s still
  simp only [resume, turned_waiting, line_turned, controller_turned, alone, served,
    List.append_nil]

/-- Where nobody waits and the controller is free, an operation that needs it gets it on arrival. -/
theorem arrive_alone (settings : Settings) (s : Surroundings) (alone : c.line = [])
    (free : c.holder = none) {o : Operation} {effects : List Effect} {command : Command}
    (accepted : o.accept s = (effects, .inr command)) :
    c.arrive settings s k o = (c.turned k (c.controller.begin settings s command),
      effects ++ (c.controller.begin settings s command).effects) := by
  have still : (c.turned k (c.controller.begin settings s command)).line = [] :=
    (line_turned c k _).trans alone
  have served := serve_nil settings s still
  rw [arrive, accepted]
  simp only [alone, List.nil_append]
  rw [serve]
  simp only [free, Option.isSome_none, Bool.false_eq_true, if_false, served, List.append_nil]

end Crowd

namespace Running

variable (p : Parts σ) (settings : Settings)

theorem drive_eq_play (r : Running σ) (progress : Progress) (c : Crowd) (k next : Nat)
    (effects : List Effect) (alone : c.line = []) :
    ∃ n, Company.play p settings ⟨c.turned k ⟨r.controller, effects, progress⟩, r.parts, next⟩
        (List.replicate n .answers) =
      ⟨c.turned k ⟨(drive p r progress).1.controller, [], .finished (drive p r progress).2⟩,
        (drive p r progress).1.parts, next⟩ := by
  induction r, progress using drive.induct p generalizing c effects with
  | case1 r result =>
      rw [drive]
      exact ⟨0, rfl⟩
  | case2 r stage a world asked turn ih =>
      obtain ⟨n, rest⟩ := ih c turn.effects alone
      have waits : (c.turned k ⟨r.controller, effects, .waiting stage⟩).holder = some (k, stage) :=
        rfl
      rw [drive]
      simp only [asked]
      refine ⟨n + 1, ?_⟩
      rw [← rest, List.replicate_succ, Company.play, List.foldl_cons, ← Company.play]
      congr 1
      simp only [Company.follow, waits, Crowd.controller_turned, asked]
      rw [Crowd.resume_alone k settings _ alone]
      rfl

/-- **An operation that is run on its own is a play**: it arrives, and is answered until it is
over. -/
theorem run_eq_play (r : Running σ) (o : Operation) (next : Nat) :
    ∃ n, Company.play p settings ⟨{ controller := r.controller }, r.parts, next⟩
        (.arrives o :: List.replicate n .answers) =
      ⟨{ controller := (r.run p settings o).1.controller,
         results := [(next, (r.run p settings o).2)] },
        (r.run p settings o).1.parts, next + 1⟩ := by
  rw [run]
  rcases accepted : o.accept (p.surroundings r.parts) with ⟨effects, result | command⟩
  · refine ⟨0, ?_⟩
    simp only [Company.play, List.replicate_zero, List.foldl_cons, List.foldl_nil, Company.follow,
      Crowd.arrive, accepted]
    rfl
  · let parts := effects.foldl p.note r.parts
    let turn := r.controller.begin settings (p.surroundings parts) command
    obtain ⟨n, rest⟩ := drive_eq_play p settings (settle p parts turn) turn.progress
      { controller := r.controller } next (next + 1) turn.effects rfl
    refine ⟨n, ?_⟩
    rw [Company.play, List.foldl_cons, ← Company.play]
    refine Eq.trans ?_ rest
    congr 1
    -- an operation that needs the controller has had no effects before
    obtain ⟨rfl, _⟩ := Operation.eq_of_accept accepted
    rw [Company.follow, Crowd.arrive_alone next settings _ rfl rfl accepted]
    rfl

end Running

end Gatekeeper.Session
