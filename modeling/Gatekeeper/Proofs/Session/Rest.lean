import Gatekeeper.Proofs.Session.Custody

set_option autoImplicit false

/-!
# The controller at rest

Whenever no operation has the controller, its fields agree: the phase says whether a server is held,
the status on show is the phase with the bound interpreter, the server that is held was launched on
the bound interpreter, and the bound interpreter is the preferred one. The two interpreters are
replaced, but never forgotten.
-/

namespace Gatekeeper.Session

open Controller

/-! ## One passage -/

namespace Passage

variable {c c' : Controller} {stage stage' : Option Stage} {r : Happening.Entry}

/-- What the controller has published is what a subscriber sees. -/
theorem published_eq (way : Passage c stage r c' stage') :
    c'.published = seen c.published r.effects := by
  cases way with
  | arrives _ events => exact (seen_emit c.published events).symm
  | turns quiet o => exact o.published_eq
  | stopped o =>
      rw [o.published_eq, seen_append]
      rfl
  | _ => rfl

theorem isSome_of_isSome (way : Passage c stage r c' stage') :
    (c.bound.isSome → c'.bound.isSome) ∧ (c.preferred.isSome → c'.preferred.isSome) := by
  cases way with
  | turns quiet o => exact o.isSome_of_isSome
  | stopped o => exact o.isSome_of_isSome
  | _ => exact ⟨id, id⟩

/-- A server that is held was handed over on the bound interpreter. -/
theorem held_launched (way : Passage c stage r c' stage') (fits : c.Fits stage)
    {launches : List (Id × String)}
    (before : ∀ session, c.server = some session →
      ∃ interpreter, c.bound = some interpreter ∧ (session, interpreter) ∈ launches)
    {session : Id} (held : c'.server = some session) :
    ∃ interpreter, c'.bound = some interpreter ∧
      (session, interpreter) ∈ launches ++ r.launches := by
  cases way with
  | arrives _ events =>
      obtain ⟨interpreter, bound, launched⟩ := before session held
      exact ⟨interpreter, bound, List.mem_append_left _ launched⟩
  | turns quiet o =>
      -- a turn that binds another interpreter ends without a server
      have same := o.state_eq held
      rw [same] at held ⊢
      obtain ⟨interpreter, bound, launched⟩ := before session held
      exact ⟨interpreter, bound, List.mem_append_left _ launched⟩
  | exits _ => cases held
  | stopped o =>
      have same := o.state_eq held
      rw [same] at held
      exact absurd (fits.1.symm.trans held) (by simp)
  | up session' interpreter =>
      cases held
      exact ⟨interpreter, fits.2.1, List.mem_append_right _ List.mem_cons_self⟩
  | failed session' interpreter => exact absurd (fits.1.symm.trans held) (by simp)

end Passage

/-! ## A whole run -/

namespace Crowd.Chronicle

variable {settings : Settings} {s : Surroundings} {h : History} {c₀ c : Crowd}

theorem published_eq (run : Chronicle settings (.initial settings s) h c) :
    c.controller.published = seen {} h.effects := by
  induction run with
  | nil => rfl
  | snoc past move ih =>
      rw [(move.passage past.fits_initial).published_eq, ih, History.effects_snoc, seen_append]
      rfl

theorem held_launched (run : Chronicle settings (.initial settings s) h c) {session : Id}
    (held : c.controller.server = some session) :
    ∃ interpreter, c.controller.bound = some interpreter ∧
      (session, interpreter) ∈ h.launches := by
  induction run generalizing session with
  | nil => cases held
  | snoc past move ih =>
      rw [History.launches_snoc]
      exact (move.passage past.fits_initial).held_launched past.fits_initial
        (fun _ held => ih held) held

/-- A session was launched on one interpreter only. -/
theorem eq_of_mem_launches (run : Chronicle settings (.initial settings s) h c) {session : Id}
    {i j : String} (hi : (session, i) ∈ h.launches) (hj : (session, j) ∈ h.launches) : i = j :=
  congrArg Prod.snd (List.inj_on_of_nodup_map run.launches_nodup hi hj rfl)

theorem isSome_of_isSome (run : Chronicle settings c₀ h c)
    (start : c₀.controller.Fits c₀.stage?) :
    (c₀.controller.bound.isSome → c.controller.bound.isSome) ∧
      (c₀.controller.preferred.isSome → c.controller.preferred.isSome) := by
  induction run with
  | nil => exact ⟨id, id⟩
  | snoc past move ih =>
      have step := (move.passage (past.fits start)).isSome_of_isSome
      exact ⟨step.1 ∘ ih.1, step.2 ∘ ih.2⟩

end Crowd.Chronicle

/-! ## The main statement -/

open Crowd

/-- **The controller at rest.** Whenever the controller is free, along every run:

* it is running when it holds a server, and stopped otherwise;
* the status that it has published, which is what its subscribers see, is its phase with the bound
  interpreter;
* a server that is held has a session below the next one, was launched on the bound interpreter,
  and this is what the indicator shows;
* the bound interpreter is the preferred one.

And from any moment on, whatever happens, neither interpreter is forgotten. -/
theorem fields_agree_at_rest {settings : Settings} {s : Surroundings} {h : History} {c : Crowd}
    (run : Chronicle settings (.initial settings s) h c) :
    (c.holder = none →
      c.controller.phase = (if c.controller.server.isSome then .running else .stopped) ∧
      c.controller.published = ⟨c.controller.phase, c.controller.bound⟩ ∧
      seen {} h.effects = ⟨c.controller.phase, c.controller.bound⟩ ∧
      (∀ session, c.controller.server = some session →
        session.val < c.controller.next.val ∧
        ∃ interpreter, c.controller.bound = some interpreter ∧
          (∀ i, (session, i) ∈ h.launches ↔ i = interpreter) ∧
          c.controller.published.indicator = activeText interpreter) ∧
      (∀ interpreter, c.controller.bound = some interpreter →
        c.controller.preferred = some interpreter)) ∧
    (∀ later c', Chronicle settings c later c' →
      (c.controller.bound.isSome → c'.controller.bound.isSome) ∧
      (c.controller.preferred.isSome → c'.controller.preferred.isSome)) := by
  refine ⟨fun free => ?_, fun later c' goesOn => goesOn.isSome_of_isSome run.fits_initial⟩
  have rest : c.controller.AtRest := by
    have fits := run.fits_initial
    rwa [stage?, free] at fits
  have shown : c.controller.published = ⟨c.controller.phase, c.controller.bound⟩ :=
    rest.published_eq
  refine ⟨rest.phase_eq, shown, run.published_eq.symm.trans shown, ?_, rest.preferred_eq⟩
  intro session held
  obtain ⟨interpreter, bound, launched⟩ := run.held_launched held
  have running : c.controller.phase = .running := by
    rw [rest.phase_eq, held]
    rfl
  refine ⟨rest.lt_next session held, interpreter, bound, ?_, ?_⟩
  · intro i
    constructor
    · exact fun also => run.eq_of_mem_launches also launched
    · rintro rfl
      exact launched
  · rw [shown, running, bound]
    rfl

/-- The second server of a run is held, and shown with its interpreter. -/
theorem fields_agree_at_rest_overlapping : ∃ h c, Chronicle {} (.initial {} simpleHost) h c ∧
    c.holder = none ∧ c.controller.server = some ⟨2⟩ ∧
    c.controller.phase = .running ∧
    c.controller.published.indicator = activeText "/venv/bin/python" := by
  obtain ⟨h, c, run, launches, _, free, held, _⟩ := overlapping_run
  obtain ⟨phase, _, _, server, _⟩ := (fields_agree_at_rest run).1 free
  obtain ⟨_, interpreter, _, launched, shown⟩ := server ⟨2⟩ held
  have same : "/venv/bin/python" = interpreter := (launched _).mp (by rw [launches]; simp)
  refine ⟨h, c, run, free, held, ?_, same ▸ shown⟩
  rw [phase, held]
  rfl

end Gatekeeper.Session
