import Gatekeeper.Proofs.Session.Custody

set_option autoImplicit false

/-!
# Reports that a server has gone

A report travels on its own and may come at any time, any number of times, about any session. It is
told apart by the session: sessions are numbered in the order of the launches that were asked for,
failed ones included, and a number is never used again. A report is true only of the server that is
held, hence at most once of a session; all others change nothing.
-/

namespace Gatekeeper.Session

open Controller

/-- A server that was reported gone was disposed of. -/
theorem History.exits_sublist (h : History) : h.exits.Sublist h.disposals := by
  induction h with
  | nil => exact List.Sublist.refl _
  | cons e h ih => exact (List.sublist_append_right e.shutdowns e.exits).append ih

namespace Crowd

variable {settings : Settings} {s : Surroundings} {h : History} {c c' : Crowd}

/-- A report is answered in one turn, which leaves the controller free. -/
theorem Move.began_exited {k : Nat} {session : Id} {t : Turn}
    (move : Move settings c (.began k (.exited session) t) c') :
    (∃ s, t = c.controller.begin settings s (.exited session)) ∧ c'.controller = t.state ∧
      ∀ result, t.progress = .finished result →
        c'.holder = none ∧ c'.results = (k, result) :: c.results := by
  cases move with
  | begin free waits s =>
      refine ⟨⟨s, rfl⟩, controller_turned _ _ _, ?_⟩
      intro result ended
      rw [turned, ended]
      exact ⟨rfl, rfl⟩

/-- A report that arrives waits for the controller, and nobody is told of it. -/
theorem Move.arrived_exited {k : Nat} {session : Id} {effects : List Effect}
    {outcome : Result ⊕ Command}
    (move : Move settings c (.arrived k (.exited session) effects outcome) c') :
    effects = [] ∧ c'.controller = c.controller ∧ c'.line = c.line ++ [(k, .exited session)] := by
  cases move with
  | dismiss accepted _ => cases accepted
  | queue accepted _ =>
      cases accepted
      exact ⟨rfl, rfl, rfl⟩

namespace Chronicle

/-- **The sessions that are launched increase**, and the n-th launch has the number n. -/
theorem calls_increase (run : Chronicle settings (.initial settings s) h c) :
    ((h.calls.map Prod.fst).map Id.val).Pairwise (· < ·) ∧
      ∀ call ∈ h.calls, call.1.val ≤ h.calls.length := by
  constructor
  · rw [run.numbered.calls_eq]
    exact List.pairwise_lt_range'
  · intro call asked
    have member : call.1.val ∈ List.range' 1 h.calls.length := by
      rw [← run.numbered.calls_eq]
      exact List.mem_map_of_mem (List.mem_map_of_mem asked)
    have := List.mem_range'_1.mp member
    omega

/-- No report on a session is true twice. -/
theorem exits_nodup (run : Chronicle settings (.initial settings s) h c) : h.exits.Nodup :=
  run.disposals_nodup.sublist h.exits_sublist

end Chronicle

end Crowd

/-! ## The main statement -/

open Crowd

/-- **Late reports are harmless.** Along every run:

* the sessions that are launched increase strictly; with fewer than 2⁶⁴ launches their numbers fit
  64 bits;
* at most one report on a session is answered with *true*;
* a report that arrives does nothing but wait for the controller;
* with the controller it is answered at once, with *true* if and only if it is about the server that
  is held;
* then the controller is stopped without a server, and both interpreters are kept;
* otherwise the controller is left as it was, and the report has no effect. -/
theorem late_reports_are_harmless {settings : Settings} {s : Surroundings} {h : History} {c : Crowd}
    (run : Chronicle settings (.initial settings s) h c) :
    ((h.calls.map Prod.fst).map Id.val).Pairwise (· < ·) ∧
    (h.calls.length < UInt64.size → ∀ call ∈ h.calls, call.1.val < UInt64.size) ∧
    h.exits.Nodup ∧
    (∀ (k : Nat) (session : Id) (effects : List Effect) (outcome : Result ⊕ Command) (c' : Crowd),
      Move settings c (.arrived k (.exited session) effects outcome) c' →
      effects = [] ∧ c'.controller = c.controller ∧
      c'.line = c.line ++ [(k, .exited session)]) ∧
    ∀ (k : Nat) (session : Id) (t : Turn) (c' : Crowd),
      Move settings c (.began k (.exited session) t) c' →
      c'.holder = none ∧
      c'.results = (k, .value (decide (c.controller.server = some session))) :: c.results ∧
      (c.controller.server = some session →
        c'.controller.phase = .stopped ∧ c'.controller.server = none ∧
        c'.controller.bound = c.controller.bound ∧
        c'.controller.preferred = c.controller.preferred) ∧
      (c.controller.server ≠ some session → c'.controller = c.controller ∧ t.effects = []) := by
  refine ⟨run.calls_increase.1, ?_, run.exits_nodup, fun _ _ _ _ _ => Move.arrived_exited, ?_⟩
  · intro few call asked
    exact Nat.lt_of_le_of_lt (run.calls_increase.2 call asked) few
  · intro k session t c' move
    obtain ⟨⟨s', rfl⟩, state, ended⟩ := move.began_exited
    -- the state and the results are read off the turn, of which there are two kinds
    by_cases held : c.controller.server = some session
    · rw [begin_exited_held settings s' held] at state ended
      obtain ⟨free, results⟩ := ended _ rfl
      refine ⟨free, ?_, fun _ => ?_, fun stale => absurd held stale⟩
      · rw [results, decide_eq_true held]
      · rw [state]
        exact ⟨rfl, rfl, rfl, rfl⟩
    · rw [begin_exited_stale settings s' held] at state ended ⊢
      obtain ⟨free, results⟩ := ended _ rfl
      refine ⟨free, ?_, fun h => absurd h held, fun _ => ⟨state, rfl⟩⟩
      rw [results, decide_eq_false held]

/-- After a restart the report on the first server is late, and the one on the second is true. -/
theorem late_reports_are_harmless_overlapping :
    ∃ (h : History) (c late gone : Crowd), Chronicle {} (.initial {} simpleHost) h c ∧
      h.launches.length = 2 ∧ h.exits.Nodup ∧
      late.results = (2, .value false) :: c.results ∧ late.controller = c.controller ∧
      gone.results = (3, .value true) :: c.results ∧ gone.controller.server = none := by
  obtain ⟨h, c, run, launches, _, free, held, line⟩ := overlapping_run
  obtain ⟨_, _, once, _, report⟩ := late_reports_are_harmless run
  have late := @Move.begin {} c 2 _ [] _ free line simpleHost
  have gone := @Move.begin {} c 3 _ [(2, .exited ⟨1⟩)] [] free line simpleHost
  obtain ⟨_, late_results, _, unchanged⟩ := report _ _ _ _ late
  obtain ⟨_, gone_results, dropped, _⟩ := report _ _ _ _ gone
  rw [held] at late_results gone_results unchanged
  exact ⟨h, c, _, _, run, by rw [launches]; rfl, once, late_results,
    (unchanged (by decide)).1, gone_results, (dropped held).2.1⟩

end Gatekeeper.Session
