import Gatekeeper.Proofs.Session.Passage
import Mathlib.Data.List.Nodup

set_option autoImplicit false

/-!
# Custody of the servers

Every server that the launcher hands over is in the controller's custody until it is disposed of:
its shutdown is completed, or it is dropped because it was reported gone. The books balance along
every run (`Chronicle.launches_eq`): the servers handed over are, in order, those disposed of and
then the one in custody, of which there is at most one. Sessions are numbered in the order of the
launches (`Chronicle.numbered`), so no two servers are taken for one another.
-/

namespace Gatekeeper.Session

open Controller

/-! ## One passage -/

namespace Passage

variable {c c' : Controller} {stage stage' : Option Stage} {r : Happening.Entry}

/-- **The books balance**: what was in custody and what was handed over is disposed of or stays in
custody. -/
theorem custody_eq (way : Passage c stage r c' stage') (fits : c.Fits stage) :
    (c.custody stage).toList ++ r.launches.map Prod.fst
      = r.disposals ++ (c'.custody stage').toList := by
  -- one case for each kind of passage: a server changes hands only where one is reported gone, is
  -- shut down, or comes up
  cases way with
  | arrives _ events => exact List.append_nil _
  | turns quiet o =>
      rw [custody_of_quiet quiet, o.custody_eq]
      exact List.append_nil _
  | exits held =>
      show c.server.toList ++ [] = _
      rw [held]
      rfl
  | @stopped session next t o =>
      have gone : (c.enter .stopped).1.server = none := fits.1
      rw [o.custody_eq, gone]
      rfl
  | up session interpreter =>
      show c.server.toList ++ [session] = _
      rw [fits.1]
      rfl
  | failed session interpreter => exact List.append_nil _

/-- Sessions are taken in order, one for each launch that is asked for. -/
theorem calls_next (way : Passage c stage r c' stage') :
    (r.calls = [] ∧ c'.next = c.next) ∨
      ∃ interpreter, r.calls = [(c.next, interpreter)] ∧ c'.next = c.next.next := by
  cases way with
  | turns quiet o => exact o.asked_eq
  | stopped o => exact o.asked_eq
  | _ => exact Or.inl ⟨rfl, rfl⟩

/-- A launch that is asked for is what the operation waits for. -/
theorem calls_eq (way : Passage c stage r c' stage') :
    r.calls = [] ∨ r.calls = askedLaunch stage' := by
  cases way with
  | turns quiet o => exact Or.inr rfl
  | stopped o => exact Or.inr rfl
  | _ => exact Or.inl rfl

/-- What is handed over was asked for, once. -/
theorem launches_sublist (way : Passage c stage r c' stage') :
    (r.launches ++ askedLaunch stage').Sublist (askedLaunch stage ++ r.calls) := by
  cases way with
  | arrives _ events => exact List.sublist_append_left _ _
  | turns quiet o => exact List.sublist_append_right _ _
  | exits held => exact List.nil_sublist _
  | stopped o => exact List.sublist_append_right _ _
  | up session interpreter => exact List.Sublist.refl _
  | failed session interpreter => exact List.nil_sublist _

end Passage

/-- Nothing is in custody while a launch is under way. -/
theorem Controller.Fits.custody_eq_none {c : Controller} {stage : Option Stage}
    (fits : c.Fits stage) (asked : askedLaunch stage ≠ []) : c.custody stage = none := by
  match stage, fits with
  | some (.launching _ _), fits => exact fits.1
  | none, _ => exact absurd rfl asked
  | some (.verifying _ _), _ => exact absurd rfl asked
  | some (.stopping _ _), _ => exact absurd rfl asked
  | some (.opening _ _ _), _ => exact absurd rfl asked

/-! ## A whole run -/

namespace Crowd

/-- The server that exists: held, or given up and not down yet. -/
def custody (c : Crowd) : Option Id := c.controller.custody c.stage?

/-- The sessions of a run are numbered from one, without gaps. -/
structure Numbered (h : History) (c : Crowd) : Prop where
  calls_eq : (h.calls.map Prod.fst).map Id.val = List.range' 1 h.calls.length
  next_eq : c.controller.next.val = h.calls.length + 1
  launches_sublist : (h.launches ++ askedLaunch c.stage?).Sublist h.calls

namespace Chronicle

variable {settings : Settings} {s : Surroundings} {h : History} {c : Crowd}

/-- **The servers handed over are those disposed of, and then the one in custody.** -/
theorem launches_eq (run : Chronicle settings (.initial settings s) h c) :
    h.launches.map Prod.fst = h.disposals ++ c.custody.toList := by
  induction run with
  | nil => rfl
  | @snoc h e c c' past move ih =>
      -- the books of `h` balance by induction, and those of `e` because it is a passage
      have fits := past.fits_initial
      have balance : c.custody.toList ++ e.launches.map Prod.fst
          = e.disposals ++ c'.custody.toList := (move.passage fits).custody_eq fits
      rw [History.launches_snoc, History.disposals_snoc, List.map_append, ih, List.append_assoc,
        balance, List.append_assoc]

/-- **What is live is what is in custody.** -/
theorem live_eq (run : Chronicle settings (.initial settings s) h c) :
    h.live = c.custody.toList := by
  rw [History.live, run.launches_eq]
  -- what was disposed of stands first, in the order in which it is taken away
  induction h.disposals with
  | nil => rfl
  | cons session rest ih =>
      rw [List.cons_append, List.diff_cons, List.erase_cons_head, ih]

theorem numbered (run : Chronicle settings (.initial settings s) h c) : Numbered h c := by
  induction run with
  | nil => exact ⟨rfl, rfl, List.nil_sublist _⟩
  | @snoc h e c c' past move ih =>
      have way := move.passage past.fits_initial
      refine ⟨?_, ?_, ?_⟩
      · rw [History.calls_snoc, List.map_append, List.map_append, ih.calls_eq, List.length_append]
        rcases way.calls_next with ⟨none, _⟩ | ⟨interpreter, one, _⟩
        · have none : e.calls = [] := none
          rw [none]
          exact List.append_nil _
        · have one : e.calls = [(c.controller.next, interpreter)] := one
          rw [one, List.length_singleton, List.range'_concat, List.map_singleton,
            List.map_singleton, ih.next_eq]
          simp [Nat.add_comm]
      · rw [History.calls_snoc, List.length_append]
        rcases way.calls_next with ⟨none, same⟩ | ⟨interpreter, one, next⟩
        · have none : e.calls = [] := none
          rw [none, same, ih.next_eq]
          rfl
        · have one : e.calls = [(c.controller.next, interpreter)] := one
          rw [one, next, Id.next, ih.next_eq]
          rfl
      · -- a launch under way was asked for, so it may be handed over later
        rw [History.launches_snoc, History.calls_snoc, List.append_assoc]
        refine (way.launches_sublist.append_left h.launches).trans ?_
        rw [← List.append_assoc]
        exact ih.launches_sublist.append_right _

/-- No server is handed over twice. -/
theorem launches_nodup (run : Chronicle settings (.initial settings s) h c) :
    (h.launches.map Prod.fst).Nodup := by
  have numbers : ((h.calls.map Prod.fst).map Id.val).Nodup := by
    rw [run.numbered.calls_eq]
    exact List.nodup_range'
  have sublist : h.launches.Sublist h.calls :=
    (List.sublist_append_left _ _).trans run.numbered.launches_sublist
  exact List.Nodup.of_map _ (numbers.sublist ((sublist.map _).map _))

/-- No server is disposed of twice. -/
theorem disposals_nodup (run : Chronicle settings (.initial settings s) h c) :
    h.disposals.Nodup := by
  have nodup := run.launches_nodup
  rw [run.launches_eq] at nodup
  exact List.Nodup.of_append_left nodup

end Chronicle

end Crowd

theorem History.length_disposals (h : History) :
    h.disposals.length = h.shutdowns.length + h.exits.length := by
  induction h with
  | nil => rfl
  | cons e h ih =>
      have split : History.disposals (e :: h)
          = (e.shutdowns ++ e.exits) ++ History.disposals h := rfl
      have shutdowns : History.shutdowns (e :: h) = e.shutdowns ++ History.shutdowns h := rfl
      have exits : History.exits (e :: h) = e.exits ++ History.exits h := rfl
      rw [split, shutdowns, exits]
      simp only [List.length_append, ih]
      omega

/-! ## The main statement -/

open Crowd

/-- **At most one server, disposed of once.** Along every run, in which any operations overlap in
any order:

* at every moment at most one server is live;
* when a launch is asked for, no server is live: all that came before have been disposed of;
* the servers handed over are those disposed of, none of them twice, and then the one in custody;
* when the controller is free, as many servers were handed over as were shut down, were reported
  gone, and are held. -/
theorem one_server_at_a_time {settings : Settings} {s : Surroundings} {h : History} {c : Crowd}
    (run : Chronicle settings (.initial settings s) h c) :
    (∀ past : History, past <+: h → past.live.length ≤ 1) ∧
    (∀ (past : History) (e : Happening), past ++ [e] <+: h → e.calls ≠ [] →
      History.live (past ++ [e]) = []) ∧
    (h.launches.map Prod.fst = h.disposals ++ c.custody.toList ∧ h.disposals.Nodup) ∧
    (c.holder = none → h.launches.length
      = h.shutdowns.length + h.exits.length + if c.controller.server.isSome then 1 else 0) := by
  refine ⟨?_, ?_, ⟨run.launches_eq, run.disposals_nodup⟩, ?_⟩
  · rintro past ⟨rest, rfl⟩
    obtain ⟨m, first, _⟩ := run.split
    rw [first.live_eq]
    cases m.custody <;> simp
  · rintro past e ⟨rest, rfl⟩ asked
    obtain ⟨m, first, _⟩ := run.split
    obtain ⟨m', before, move⟩ := first.of_snoc
    have way := move.passage before.fits_initial
    -- the launch that was asked for is the stage now, and at this stage nobody is in custody
    have waits : askedLaunch m.stage? ≠ [] := by
      intro none
      rcases way.calls_eq with h | h
      · exact asked h
      · exact asked (h.trans none)
    have nobody : m.custody = none := first.fits_initial.custody_eq_none waits
    rw [first.live_eq, nobody]
    rfl
  · intro free
    have at_rest : c.custody = c.controller.server := by
      rw [Crowd.custody, stage?, free]
      rfl
    have balance := congrArg List.length run.launches_eq
    rw [List.length_map, List.length_append, History.length_disposals, at_rest] at balance
    rw [balance]
    cases c.controller.server <;> rfl

/-- The books of a run with two launches, of which the second replaced the first. -/
theorem one_server_at_a_time_overlapping : ∃ h c, Chronicle {} (.initial {} simpleHost) h c ∧
    h.launches.length = 2 ∧ c.holder = none ∧
    (∀ past : History, past <+: h → past.live.length ≤ 1) ∧
    h.disposals.Nodup ∧
    h.launches.length
      = h.shutdowns.length + h.exits.length + if c.controller.server.isSome then 1 else 0 := by
  obtain ⟨h, c, run, launches, _, free, _⟩ := overlapping_run
  obtain ⟨one, _, ⟨_, once⟩, balance⟩ := one_server_at_a_time run
  exact ⟨h, c, run, by rw [launches]; rfl, free, one, once, balance free⟩

end Gatekeeper.Session
