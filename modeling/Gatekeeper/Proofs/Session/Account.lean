import Gatekeeper.Proofs.Session.Chronicle

set_option autoImplicit false

/-!
# Accounts of a run

A chronicle records what happened, but not what the controller saw when a turn was taken. An
**account** records this too: each happening is a `Scene`, with the controller before it and its
surroundings. Every chronicle has an account (`Chronicle.exists_account`), so what holds of all
accounts holds of every run.

The **tenure** at some point of an account is all that has happened to the controller since an
operation last got it. Operations that arrive in the meantime leave the controller alone, and are
left out.
-/

namespace Gatekeeper.Session

/-! ## Scenes -/

/-- A happening with its circumstances: the controller before it, and what the controller saw. -/
structure Scene where
  controller : Controller
  surroundings : Surroundings
  happening : Happening

/-- The happening is what comes of its circumstances. -/
def Scene.Follows (settings : Settings) : Scene → Prop
  | ⟨_, s, .arrived _ o effects outcome⟩ => o.accept s = (effects, outcome)
  | ⟨c, s, .began _ command t⟩ => t = c.begin settings s command
  | ⟨c, s, .answered _ stage a t⟩ => t = c.resume s stage a

namespace Crowd

variable {settings : Settings} {c₀ c c' : Crowd} {h : History} {e : Happening}

/-- Every move takes place in some surroundings. -/
theorem Move.exists_scene (move : Move settings c e c') :
    ∃ s, Scene.Follows settings ⟨c.controller, s, e⟩ := by
  cases move with
  | dismiss accepted _ => exact ⟨_, accepted⟩
  | queue accepted _ => exact ⟨_, accepted⟩
  | begin _ _ s => exact ⟨s, rfl⟩
  | answer _ s _ => exact ⟨s, rfl⟩

/-- `Account settings c₀ a c`: from `c₀`, the scenes of `a` led to `c`. -/
inductive Account (settings : Settings) (c₀ : Crowd) : List Scene → Crowd → Prop
  | nil : Account settings c₀ [] c₀
  | snoc {a : List Scene} {x : Scene} {c c' : Crowd} (past : Account settings c₀ a c)
      (move : Move settings c x.happening c') (before : x.controller = c.controller)
      (follows : x.Follows settings) : Account settings c₀ (a ++ [x]) c'

theorem Account.chronicle {a : List Scene} (run : Account settings c₀ a c) :
    Chronicle settings c₀ (a.map Scene.happening) c := by
  induction run with
  | nil => exact .nil
  | snoc _ move _ _ ih =>
      rw [List.map_append]
      exact ih.snoc move

/-- **Every run has an account.** -/
theorem Chronicle.exists_account (run : Chronicle settings c₀ h c) :
    ∃ a, a.map Scene.happening = h ∧ Account settings c₀ a c := by
  induction run with
  | nil => exact ⟨[], rfl, .nil⟩
  | @snoc h e c c' past move ih =>
      obtain ⟨a, rfl, account⟩ := ih
      obtain ⟨s, follows⟩ := move.exists_scene
      refine ⟨a ++ [⟨c.controller, s, e⟩], List.map_append, ?_⟩
      exact account.snoc move rfl follows

/-- The last scene of an account. -/
theorem Account.of_snoc {a : List Scene} {x : Scene} (run : Account settings c₀ (a ++ [x]) c) :
    ∃ m, Account settings c₀ a m ∧ Move settings m x.happening c ∧
      x.controller = m.controller ∧ x.Follows settings := by
  generalize all : a ++ [x] = b at run
  cases run with
  | nil => simp at all
  | snoc past move before follows =>
      obtain ⟨rfl, last⟩ := List.append_inj' all rfl
      cases last
      exact ⟨_, past, move, before, follows⟩

/-- An account can be read up to any point. -/
theorem Account.past {a past : List Scene} (run : Account settings c₀ a c)
    (begins : past <+: a) : ∃ m, Account settings c₀ past m := by
  obtain ⟨rest, rfl⟩ := begins
  induction rest using List.reverseRecOn generalizing c with
  | nil =>
      rw [List.append_nil] at run
      exact ⟨c, run⟩
  | append_singleton rest x ih =>
      rw [← List.append_assoc] at run
      obtain ⟨m, before, _⟩ := run.of_snoc
      exact ih before

end Crowd

/-! ## Tenures -/

/-- The tenure after a scene. -/
def Scene.join (t : List Scene) (x : Scene) : List Scene :=
  match x.happening with
  | .arrived _ _ _ _ => t
  | .began _ _ _ => [x]
  | .answered _ _ _ _ => t ++ [x]

/-- What has happened to the controller since an operation last got it. -/
def tenure (a : List Scene) : List Scene := a.foldl Scene.join []

theorem tenure_snoc (a : List Scene) (x : Scene) : tenure (a ++ [x]) = x.join (tenure a) := by
  rw [tenure, List.foldl_append]
  rfl

/-- The scenes are the turns of one operation: it got the controller with the command, and all else
are answers that it was given. -/
def IsTenure (k : Nat) (command : Command) (t : List Scene) : Prop :=
  ∃ x turn rest, t = x :: rest ∧ x.happening = .began k command turn ∧
    ∀ y ∈ rest, ∃ stage a turn, y.happening = .answered k stage a turn

theorem isTenure_began {k : Nat} {command : Command} {x : Scene} {turn : Turn}
    (began : x.happening = .began k command turn) : IsTenure k command [x] :=
  ⟨x, turn, [], rfl, began, fun _ member => absurd member List.not_mem_nil⟩

theorem IsTenure.snoc {k : Nat} {command : Command} {t : List Scene} {x : Scene} {stage : Stage}
    {a : stage.Answer} {turn : Turn} (held : IsTenure k command t)
    (answered : x.happening = .answered k stage a turn) : IsTenure k command (t ++ [x]) := by
  obtain ⟨y, first, rest, rfl, began, answers⟩ := held
  refine ⟨y, first, rest ++ [x], rfl, began, ?_⟩
  intro z member
  rcases List.mem_append.mp member with earlier | last
  · exact answers z earlier
  · rw [List.mem_singleton.mp last]
    exact ⟨stage, a, turn, answered⟩

end Gatekeeper.Session
