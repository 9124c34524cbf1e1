import Gatekeeper.Proofs.Session.Performance

set_option autoImplicit false

/-!
# Rejected candidates

When a candidate is not compatible, the operation is over with that verdict as its error. Up to then
it has done nothing but ask for the verdict, after a shutdown if it is a restart
(`Performance.at_verifying`); the rejection itself only tells the host. This is shown of every
performance, from whatever controller it begins, and hence of every operation of a run
(`Crowd.Chronicle.underWay_of_move`).
-/

namespace Gatekeeper.Session

namespace Controller

variable {n : Controller} {settings : Settings} {s : Surroundings} {command : Command}
  {candidate : String} {switching : Bool} {session : Id} {next : AfterStop} {t : Turn}

/-! ## How an operation comes to a verdict -/

theorem Outcome.eq_of_verifying (o : Outcome n t)
    (waits : t.progress = .waiting (.verifying candidate switching)) :
    t = n.wait (.verifying candidate switching) := by
  cases o with
  | verifies _ _ =>
      cases waits
      rfl
  | _ => cases waits

theorem Outcome.eq_of_stopping (o : Outcome n t)
    (waits : t.progress = .waiting (.stopping session next)) :
    n.server = some session ∧ t = { n with server := none }.wait (.stopping session next) := by
  cases o with
  | stops held _ =>
      cases waits
      exact ⟨held, rfl⟩
  | _ => cases waits

/-- The commands whose first turn asks for a verdict. -/
theorem begin_verifying
    (waits : (n.begin settings s command).progress = .waiting (.verifying candidate switching)) :
    (command = .start ∧ switching = false) ∨
      (command = .restart ∧ n.server = none ∧ switching = false) ∨
      ∃ asked, command = .switch candidate asked ∧ switching = true := by
  cases opens_of_begin waits with
  | start chosen => exact Or.inl ⟨rfl, rfl⟩
  | restartStopped gone chosen => exact Or.inr (Or.inl ⟨rfl, gone, rfl⟩)
  | switch _ asked free => exact Or.inr (Or.inr ⟨asked, rfl, rfl⟩)

/-- A rejection ends the operation and only tells the host. -/
theorem resume_rejected {v : Verdict} (bad : v.isCompatible = false) :
    n.resume s (.verifying candidate switching) v =
      (n.finish (.failed (.incompatible v))).after (.emit (.incompatible candidate v) ::
        if switching then [.emit (.keptPrevious candidate n.bound)] else []) := by
  simp only [resume, bad]
  rfl

end Controller

/-! ## The performance up to the verdict -/

namespace Performance

open Controller

variable {n : Controller} {settings : Settings} {command : Command} {candidate : String}
  {switching : Bool} {session : Id} {xs : List Exchange} {t : Turn}

/-- A restart gives the server up in its first turn. -/
theorem at_stopping_start (performed : Performance settings n command xs t)
    (waits : t.progress = .waiting (.stopping session .start)) :
    xs = [] ∧ command = .restart ∧ n.server = some session ∧
      t = { n with server := none }.wait (.stopping session .start) := by
  cases performed with
  | begin s =>
      cases opens_of_begin waits with
      | restart held => exact ⟨rfl, rfl, (outcome_stop n s _).eq_of_stopping waits⟩
  | resume past waits' s a =>
      -- no answer leads to this stage
      have waits : (Controller.resume _ s _ a).progress = .waiting (.stopping session .start) :=
        waits
      nomatch leads_of_resume waits

/-- What was done before a verdict is asked for: nothing, or by a restart what a stop does. -/
theorem at_verifying (performed : Performance settings n command xs t)
    (waits : t.progress = .waiting (.verifying candidate switching)) :
    (xs = [] ∧ t.state = n ∧ t.effects = [] ∧ (command = .start ∧ switching = false ∨
      ∃ asked, command = .switch candidate asked ∧ switching = true)) ∨
    (command = .restart ∧ switching = false ∧
      ∃ ys u, Performance settings n .stop ys u ∧ u.progress = .finished .done ∧
        xs.map Exchange.request = ys.map Exchange.request ∧ t.state = u.state ∧
        t.effects = u.effects) := by
  -- a verdict is asked for in the first turn of the command, or once a restart is rid of the server
  cases performed with
  | begin s =>
      rcases begin_verifying waits with ⟨rfl, first⟩ | ⟨rfl, gone, first⟩ | ⟨asked, rfl, first⟩
      · have same := (outcome_begin n settings s .start (by simp)).eq_of_verifying waits
        rw [same]
        exact Or.inl ⟨rfl, rfl, rfl, Or.inl ⟨rfl, first⟩⟩
      · -- without a server the stop is over at once
        have same := (outcome_begin n settings s .restart (by simp)).eq_of_verifying waits
        have idle : n.begin settings s .stop = n.finish .done := by
          rw [Controller.begin, stop, gone]
          rfl
        refine Or.inr ⟨rfl, first, [], n.begin settings s .stop, .begin s, ?_, rfl, ?_, ?_⟩
        · rw [idle]
          rfl
        · rw [same, idle]
          rfl
        · rw [same, idle]
          rfl
      · have same :=
          (outcome_begin n settings s (.switch candidate asked) (by simp)).eq_of_verifying waits
        rw [same]
        exact Or.inl ⟨rfl, rfl, rfl, Or.inr ⟨asked, rfl, first⟩⟩
  | @resume xs t stage past waits' s a =>
      have waits : (t.state.resume s stage a).progress =
          .waiting (.verifying candidate switching) :=
        waits
      cases leads_of_resume waits with
      | @looks session _ chosen =>
          obtain ⟨rfl, rfl, held, rfl⟩ := past.at_stopping_start waits'
          -- `m` is where a stop ends, and where the start of the restart begins
          let m : Controller := (enter { n with server := none } .stopped).1
          have same : m.start s = m.wait (.verifying candidate false) :=
            (outcome_start m s).eq_of_verifying waits
          have gives : n.begin settings s .stop
              = { n with server := none }.wait (.stopping session .finish) := by
            rw [Controller.begin, stop, held]
          have stops : Performance settings n .stop [] (n.begin settings s .stop) := .begin s
          rw [gives] at stops
          refine Or.inr ⟨rfl, rfl, _, _, stops.resume rfl s (), rfl, rfl, ?_, ?_⟩
          · change (m.start s).state = m
            rw [same]
            rfl
          · change [] ++ ([.publish ⟨.stopped, n.bound⟩, notice .stopped none] ++
                (m.start s).effects)
              = [] ++ ([.publish ⟨.stopped, n.bound⟩, notice .stopped none] ++ [])
            rw [same]
            rfl

variable {v : Verdict} {selection : String}

/-- A rejection is the last answer that an operation gets. -/
theorem rejected_last (performed : Performance settings n command xs t)
    (answered : ⟨.verifying candidate switching, v⟩ ∈ xs) (bad : v.isCompatible = false) :
    ∃ past u s, xs = past ++ [⟨.verifying candidate switching, v⟩] ∧
      Performance settings n command past u ∧
      u.progress = .waiting (.verifying candidate switching) ∧
      t = (u.state.resume s (.verifying candidate switching) v).after u.effects := by
  refine performed.last_answer answered fun m s => ?_
  rw [resume_rejected bad]
  rfl

/-- A command that meets a rejection is a start, a switch or a restart. -/
theorem rejection (performed : Performance settings n command xs t)
    (answered : ⟨.verifying candidate switching, v⟩ ∈ xs) (bad : v.isCompatible = false) :
    t.progress = .finished (.failed (.incompatible v)) ∧
    (command = .start ∧ xs.map Exchange.request = [.verify candidate] ∧ t.state = n ∧
        t.effects = [.emit (.incompatible candidate v)] ∨
      (∃ asked, command = .switch candidate asked) ∧
        xs.map Exchange.request = [.verify candidate] ∧ t.state = n ∧
        t.effects = [.emit (.incompatible candidate v), .emit (.keptPrevious candidate n.bound)] ∨
      command = .restart ∧
        ∃ ys u, Performance settings n .stop ys u ∧ u.progress = .finished .done ∧
          xs.map Exchange.request = ys.map Exchange.request ++ [.verify candidate] ∧
          t.state = u.state ∧ t.effects = u.effects ++ [.emit (.incompatible candidate v)]) := by
  obtain ⟨past, u, s, rfl, before, waits, rfl⟩ := performed.rejected_last answered bad
  rw [resume_rejected bad, List.map_append]
  refine ⟨rfl, ?_⟩
  rcases before.at_verifying waits with ⟨rfl, state, effects, first⟩ |
    ⟨rfl, rfl, ys, w, stops, ended, requests, state, effects⟩
  · have tells : ∀ es : List Effect, u.effects ++ (es ++ []) = es := by
      intro es
      rw [effects, List.append_nil, List.nil_append]
    rcases first with ⟨rfl, rfl⟩ | ⟨asked, rfl, rfl⟩
    · exact Or.inl ⟨rfl, rfl, state, tells _⟩
    · refine Or.inr (Or.inl ⟨⟨asked, rfl⟩, rfl, state, ?_⟩)
      rw [← state]
      exact tells _
  · refine Or.inr (Or.inr ⟨rfl, ys, w, stops, ended, ?_, state, ?_⟩)
    · rw [requests]
      rfl
    · rw [← effects]
      rfl

end Performance

/-! ## Rejection -/

section

variable {n : Controller} {settings : Settings} {s : Surroundings} {o : Operation}
  {told : List Effect} {command : Command} {candidate : String} {switching : Bool} {v : Verdict}
  {xs : List Exchange} {t : Turn}

/-- **A rejected candidate changes nothing.** Whatever state the controller is in when an operation
gets it, a verdict that is not compatible ends the operation with exactly this verdict as its error.

* A start asked for nothing but the verdict, the state is the same in all its fields, and the host
  was told of the rejection only.
* The same is true of a change of the interpreter, which also tells what was kept.
* A restart did what a stop does from this state, and told of the rejection.

Other operations do not have a candidate verified. -/
theorem rejection_changes_nothing (accepted : o.accept s = (told, .inr command))
    (performed : Performance settings n command xs t)
    (answered : ⟨.verifying candidate switching, v⟩ ∈ xs) (bad : v.isCompatible = false) :
    told = [] ∧ t.progress = .finished (.failed (.incompatible v)) ∧
      match o with
      | .activate | .start =>
        xs.map Exchange.request = [.verify candidate] ∧ t.state = n ∧
          t.effects = [.emit (.incompatible candidate v)]
      | .select selection | .changed selection =>
        candidate = s.resolve selection ∧ xs.map Exchange.request = [.verify candidate] ∧
          t.state = n ∧
          t.effects = [.emit (.incompatible candidate v), .emit (.keptPrevious candidate n.bound)]
      | .restart =>
        ∃ ys u, Performance settings n .stop ys u ∧ u.progress = .finished .done ∧
          xs.map Exchange.request = ys.map Exchange.request ++ [.verify candidate] ∧
          t.state = u.state ∧ t.effects = u.effects ++ [.emit (.incompatible candidate v)]
      | _ => False := by
  obtain ⟨rfl, rfl⟩ := Operation.eq_of_accept accepted
  obtain ⟨ended, done⟩ := performed.rejection answered bad
  refine ⟨rfl, ended, ?_⟩
  rcases done with ⟨start, rest⟩ | ⟨⟨asked, switch⟩, rest⟩ | ⟨restart, rest⟩
  · cases o with
    | activate | start => exact rest
    | _ => cases start
  · cases o with
    | select selection | changed selection =>
        cases switch
        exact ⟨rfl, rest⟩
    | _ => cases switch
  · cases o with
    | restart => exact rest
    | _ => cases restart

end

/-- A server is running when its user selects an interpreter that is not there, and goes on. Then
its own interpreter is gone, and a restart comes to what a stop comes to. -/
theorem rejection_changes_nothing_running :
    ∃ (n : Controller) (kept stopped : Turn), n.server = some ⟨1⟩ ∧
      Performance {} n (.switch "/opt/python" true)
        [⟨.verifying "/opt/python" true, Verdict.notFound "/opt/python"⟩] kept ∧
      kept.state = n ∧
      kept.progress = .finished (.failed (.incompatible (.notFound "/opt/python"))) ∧
      Performance {} kept.state .restart
        [⟨.stopping ⟨1⟩ .start, ()⟩,
          ⟨.verifying "/venv/bin/python" false, Verdict.notFound "/venv/bin/python"⟩] stopped ∧
      (∃ ys u, Performance {} kept.state .stop ys u ∧ stopped.state = u.state) ∧
      stopped.state.server = none := by
  let s := Crowd.simpleHost
  let n : Controller :=
    ⟨.running, some "/venv/bin/python", some "/venv/bin/python", some ⟨1⟩, ⟨2⟩,
      ⟨.running, some "/venv/bin/python"⟩⟩
  have kept := @Performance.resume {} n (.switch "/opt/python" true) [] _
    (.verifying "/opt/python" true) (.begin s) rfl s (Verdict.notFound "/opt/python")
  have down := @Performance.resume {} n .restart [] _ (.stopping ⟨1⟩ .start) (.begin s) rfl s ()
  have stopped := @Performance.resume {} n .restart _ _ (.verifying "/venv/bin/python" false)
    down rfl s (Verdict.notFound "/venv/bin/python")
  have ⟨_, ended, _, _, same, _⟩ := rejection_changes_nothing (o := .select "/opt/python") (s := s)
    rfl kept List.mem_cons_self rfl
  have ⟨_, _, ys, u, stops, _, _, state, _⟩ := rejection_changes_nothing (o := .restart) (s := s)
    rfl stopped (List.mem_cons_of_mem _ List.mem_cons_self) rfl
  exact ⟨n, _, _, rfl, kept, same, ended, stopped, ⟨ys, u, stops, state⟩, rfl⟩

end Gatekeeper.Session
