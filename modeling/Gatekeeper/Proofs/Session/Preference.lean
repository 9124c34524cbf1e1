import Gatekeeper.Proofs.Session.FailedLaunch

set_option autoImplicit false

/-!
# The preference as the host knows it

The host persists the interpreter that it is told of, so what it is told has to say what the
controller prefers. A turn announces a preference only where it asks for a launch, and only if the
interpreter is another one than before, by its components (`Announces`). A launch is the last thing
that an operation waits for, so an operation announces one interpreter at most
(`Performance.announces`); and along a run the announcements replayed one after another give what is
preferred (`Chronicle.replay_agrees`), though not always in the same spelling.
-/

namespace Gatekeeper.Session

/-! ## Replaying the announcements -/

/-- Both name the same interpreter, whatever the spelling, or neither names one. -/
def Agree (p q : Option String) : Prop := p.map Path.components = q.map Path.components

instance (p q : Option String) : Decidable (Agree p q) := inferInstanceAs (Decidable (_ = _))

/-- What a host prefers that follows the announcements, one after another. -/
def replay (start : Option String) (effects : List Effect) : Option String :=
  (announced effects).foldl (fun _ interpreter => some interpreter) start

theorem replay_append (start : Option String) (es fs : List Effect) :
    replay start (es ++ fs) = replay (replay start es) fs := by
  rw [replay, announced_append, List.foldl_append]
  rfl

theorem replay_of_silent {effects : List Effect} (silent : announced effects = [])
    (start : Option String) : replay start effects = start := by
  rw [replay, silent]
  rfl

theorem Operation.announced_accept (o : Operation) (s : Surroundings) :
    announced (o.accept s).1 = [] := by
  rcases o.told_by_accept s with none | unavailable
  · rw [none]
    rfl
  · rw [unavailable]
    rfl

namespace Controller

variable {c d : Controller} {t : Turn}

theorem prefers_iff (c : Controller) (interpreter : String) :
    c.prefers interpreter = true ↔ Agree c.preferred (some interpreter) := by
  unfold prefers Agree
  cases c.preferred with
  | none => simp
  | some p => simp [Path.same]

/-! ## One turn -/

/-- What a turn does with the preference. -/
inductive Announces (c : Controller) (t : Turn) : Prop
  | keeps (silent : announced t.effects = []) (same : t.state.preferred = c.preferred)
  /-- The interpreter of the launch is preferred from now on. -/
  | binds (session : Id) (interpreter : String)
      (asks : t.progress = .waiting (.launching session interpreter))
      (told : announced t.effects = if c.prefers interpreter then [] else [interpreter])
      (preferred : t.state.preferred = some interpreter)

/-- Only the preference of the controller counts. -/
theorem Announces.of_preferred (a : Announces d t) (same : d.preferred = c.preferred) :
    Announces c t := by
  cases a with
  | keeps silent kept => exact .keeps silent (kept.trans same)
  | binds session interpreter asks told preferred =>
      rw [prefers_congr same] at told
      exact .binds session interpreter asks told preferred

/-- What has been announced before the turn makes no difference if it is nothing. -/
theorem Announces.after (a : Announces c t) {effects : List Effect}
    (silent : announced effects = []) : Announces c (t.after effects) := by
  have all : announced (t.after effects).effects = announced t.effects := by
    rw [Turn.effects_after, announced_append, silent, List.nil_append]
  cases a with
  | keeps own same => exact .keeps (all.trans own) same
  | binds session interpreter asks told preferred =>
      exact .binds session interpreter asks (all.trans told) preferred

variable (c) (s : Surroundings)

theorem announces_start : Announces c (c.start s) := by
  rw [start]
  split
  · exact .keeps rfl rfl
  · exact .keeps rfl rfl

theorem announces_afterStop (next : AfterStop) : Announces c (c.afterStop s next) := by
  cases next with
  | finish => exact .keeps rfl rfl
  | start => exact announces_start c s
  | launch interpreter =>
      exact .binds c.next interpreter rfl (announced_launch c interpreter) rfl
  | deactivate => exact .keeps rfl rfl

theorem announces_stop (next : AfterStop) : Announces c (c.stop s next) := by
  rw [stop]
  split
  · exact .keeps rfl rfl
  · exact announces_afterStop c s next

theorem announces_begin (settings : Settings) (command : Command) :
    Announces c (c.begin settings s command) := by
  cases command with
  | start => exact announces_start c s
  | stop => exact announces_stop c s .finish
  | restart => exact announces_stop c s .start
  | switch candidate asked =>
      rw [begin]
      split
      · exact .keeps rfl rfl
      · exact .keeps rfl rfl
  | exited session =>
      by_cases held : c.server = some session
      · rw [begin_exited_held settings s held]
        exact .keeps rfl rfl
      · rw [begin_exited_stale settings s held]
        exact .keeps rfl rfl
  | openDocument path text =>
      rw [begin]
      split
      · exact .keeps rfl rfl
      · exact .keeps rfl rfl
  | deactivate => exact announces_stop c s .deactivate

theorem announces_verified (candidate : String) (switching : Bool) (verdict : Verdict) :
    Announces c (c.resume s (.verifying candidate switching) verdict) := by
  rw [resume]
  split
  · exact announces_stop c s (.launch candidate)
  · cases switching
    · exact .keeps rfl rfl
    · exact .keeps rfl rfl

theorem announces_resume (stage : Stage) (a : stage.Answer) :
    Announces c (c.resume s stage a) := by
  cases stage with
  | verifying candidate switching => exact announces_verified c s candidate switching a
  | stopping session next =>
      -- that the server is down is published, and tells nothing of the preference
      have rest := announces_afterStop (c.enter .stopped).1 s next
      have same : (c.enter .stopped).1.preferred = c.preferred := rfl
      show Announces c (c.resume s (.stopping session next) ())
      rw [resume_stopping]
      exact (rest.of_preferred same).after rfl
  | launching session interpreter =>
      match a with
      | .ok () => exact .keeps rfl rfl
      | .error _ => exact .keeps rfl rfl
  | opening session path text => exact .keeps rfl rfl

/-- The replay goes with the preference. -/
theorem Announces.replay_agrees {c : Controller} {t : Turn} (a : Announces c t)
    {known : Option String} (before : Agree known c.preferred) :
    Agree (replay known t.effects) t.state.preferred := by
  cases a with
  | keeps silent same =>
      rw [replay_of_silent silent, same]
      exact before
  | binds session interpreter asks told preferred =>
      rw [preferred]
      by_cases already : c.prefers interpreter = true
      · -- nothing is announced, since only the spelling can have changed
        rw [if_pos already] at told
        rw [replay_of_silent told]
        exact before.trans ((prefers_iff c interpreter).mp already)
      · rw [if_neg already] at told
        rw [replay, told]
        exact rfl

end Controller

open Controller

/-! ## One operation -/

/-- **What a whole operation does with the preference** is what one turn can do. -/
theorem Performance.announces {settings : Settings} {n : Controller} {command : Command}
    {xs : List Exchange} {t : Turn} (performed : Performance settings n command xs t) :
    (announced t.effects = [] ∧ t.state.preferred = n.preferred) ∨
      ∃ interpreter, announced t.effects = (if n.prefers interpreter then [] else [interpreter]) ∧
        t.state.preferred = some interpreter ∧
        ∀ stage, t.progress = .waiting stage →
          ∃ session, stage = .launching session interpreter := by
  -- by induction on the answers, with the cases of the turn before each
  induction performed with
  | begin s =>
      cases announces_begin n s settings command with
      | keeps silent same => exact Or.inl ⟨silent, same⟩
      | binds session interpreter asks told preferred =>
          refine Or.inr ⟨interpreter, told, preferred, fun stage waits => ?_⟩
          exact ⟨session, Progress.waiting.inj (waits.symm.trans asks)⟩
  | @resume xs t stage past waits s a ih =>
      have all : announced ((t.state.resume s stage a).after t.effects).effects
          = announced t.effects ++ announced (t.state.resume s stage a).effects := by
        rw [Turn.effects_after, announced_append]
      rcases ih with ⟨before, kept⟩ | ⟨interpreter, before, bound, last⟩
      · rw [all, before, List.nil_append]
        cases (announces_resume t.state s stage a).of_preferred kept with
        | keeps silent same => exact Or.inl ⟨silent, same⟩
        | binds session interpreter asks told preferred =>
            refine Or.inr ⟨interpreter, told, preferred, fun stage waits => ?_⟩
            exact ⟨session, Progress.waiting.inj (waits.symm.trans asks)⟩
      · -- the launch was asked for; whether it succeeds or not, the operation is over after it
        obtain ⟨session, rfl⟩ := last stage waits
        refine Or.inr ⟨interpreter, ?_, ?_, ?_⟩
        · rw [all, before]
          match a with
          | .ok () => exact List.append_nil _
          | .error _ => exact List.append_nil _
        · match a with
          | .ok () => exact bound
          | .error _ => exact bound
        · intro stage goesOn
          match a with
          | .ok () => cases goesOn
          | .error _ => cases goesOn

/-- An operation announces one interpreter, or none if the preference stays the same. -/
theorem Performance.announced_iff {settings : Settings} {n : Controller} {command : Command}
    {xs : List Exchange} {t : Turn} (performed : Performance settings n command xs t) :
    (announced t.effects).length ≤ 1 ∧
      (announced t.effects ≠ [] ↔ ¬ Agree n.preferred t.state.preferred) ∧
      ∀ interpreter ∈ announced t.effects, t.state.preferred = some interpreter := by
  rcases performed.announces with ⟨silent, same⟩ | ⟨interpreter, told, preferred, _⟩
  · rw [silent, same]
    refine ⟨Nat.zero_le 1, ?_, fun _ member => absurd member List.not_mem_nil⟩
    exact iff_of_false (fun some => some rfl) (fun differ => differ rfl)
  · rw [told, preferred, ← prefers_iff]
    by_cases already : n.prefers interpreter = true
    · rw [if_pos already]
      refine ⟨Nat.zero_le 1, ?_, fun _ member => absurd member List.not_mem_nil⟩
      exact iff_of_false (fun some => some rfl) (fun differ => differ already)
    · rw [if_neg already]
      refine ⟨Nat.le_refl 1, iff_of_true (List.cons_ne_nil _ _) already, ?_⟩
      intro i member
      rw [List.mem_singleton.mp member]

/-! ## A whole run -/

namespace Crowd.Chronicle

variable {settings : Settings} {s : Surroundings} {h : History} {c₀ c : Crowd}

/-- **The announcements give the preference**, at every moment of a run. -/
theorem replay_agrees (run : Chronicle settings c₀ h c) :
    Agree (replay c₀.controller.preferred h.effects) c.controller.preferred := by
  induction run with
  | nil => exact rfl
  | @snoc h e c c' past move ih =>
      rw [History.effects_snoc, replay_append]
      cases move with
      | @dismiss s o effects result accepted k =>
          have silent := o.announced_accept s
          rw [accepted] at silent
          rw [Happening.effects, replay_of_silent silent]
          exact ih
      | @queue s o effects command accepted k =>
          have silent := o.announced_accept s
          rw [accepted] at silent
          rw [Happening.effects, replay_of_silent silent]
          exact ih
      | @begin k command before behind free waits s =>
          rw [controller_turned]
          exact (announces_begin c.controller s settings command).replay_agrees ih
      | @answer k stage holds s a =>
          rw [controller_turned]
          exact (announces_resume c.controller s stage a).replay_agrees ih

end Crowd.Chronicle

/-! ## A pinned default -/

/-- Nothing arrives but changes that the host reports. -/
def OnlyChanges (h : History) : Prop :=
  ∀ e ∈ h, ∀ k o effects outcome, e = .arrived k o effects outcome →
    ∃ selection, o = Operation.changed selection

/-- Nothing waits for the controller but changes that the host reports. -/
def Crowd.ChangesWait (c : Crowd) : Prop :=
  c.holder = none ∧ ∀ x ∈ c.line, ∃ candidate, x.2 = Command.switch candidate false

section Pinned

variable {settings : Settings} (pinned : Pinned settings = true)

include pinned

theorem begin_pinned (c : Controller) (s : Surroundings) (candidate : String) :
    c.begin settings s (.switch candidate false)
      = ⟨c, [.emit (.changeIgnored candidate)], .finished .done⟩ := by
  rw [begin, pinned]
  rfl

/-- A change that the host reports is over at once. -/
theorem Performance.of_pinned {n : Controller} {candidate : String} {xs : List Exchange} {t : Turn}
    (performed : Performance settings n (.switch candidate false) xs t) :
    xs = [] ∧ t = ⟨n, [.emit (.changeIgnored candidate)], .finished .done⟩ := by
  induction performed with
  | begin s => exact ⟨rfl, begin_pinned pinned n s candidate⟩
  | resume past waits s a ih =>
      rw [ih.2] at waits
      cases waits

/-- **However many changes the host reports, they leave the controller as it is.** -/
theorem Crowd.Chronicle.of_pinned {c₀ c : Crowd} {h : History} (run : Chronicle settings c₀ h c)
    (wait : c₀.ChangesWait) (only : OnlyChanges h) :
    c.ChangesWait ∧ c.controller = c₀.controller ∧ announced h.effects = [] := by
  induction run with
  | nil => exact ⟨wait, rfl, rfl⟩
  | @snoc h e c c' past move ih =>
      obtain ⟨⟨free, line⟩, same, silent⟩ :=
        ih fun e member => only e (List.mem_append_left _ member)
      have last := only e (List.mem_append_right _ List.mem_cons_self)
      rw [History.effects_snoc, announced_append, silent, List.nil_append]
      cases move with
      | dismiss accepted k =>
          obtain ⟨selection, rfl⟩ := last _ _ _ _ rfl
          cases accepted
      | queue accepted k =>
          obtain ⟨selection, rfl⟩ := last _ _ _ _ rfl
          cases accepted
          refine ⟨⟨free, ?_⟩, same, rfl⟩
          intro x member
          rcases List.mem_append.mp member with earlier | new
          · exact line x earlier
          · rw [List.mem_singleton.mp new]
            exact ⟨_, rfl⟩
      | @begin k command before behind _ waits s =>
          -- the command that gets the controller is a change, and is over with its first turn
          obtain ⟨candidate, rfl⟩ : ∃ candidate, command = .switch candidate false :=
            line (k, command) (waits ▸ List.mem_append_right _ List.mem_cons_self)
          rw [begin_pinned pinned]
          refine ⟨⟨rfl, fun x member => line x ?_⟩, same, rfl⟩
          rw [waits]
          exact (List.sublist_cons_self _ _).append_left before |>.mem member
      | answer holds s a => exact absurd (free.symm.trans holds) (by simp)

end Pinned

/-! ## A run with a pinned default -/

namespace Crowd

/-- A default that is configured and pinned. -/
def pinnedSettings : Settings := ⟨some "/venv/bin/python", false⟩

/-- A change that the host reports to a free controller arrives and gets the controller. -/
theorem exists_change (settings : Settings) {c : Crowd} (free : c.holder = none)
    (empty : c.line = []) (s : Surroundings) (selection : String) :
    ∃ later c', Chronicle settings c later c' ∧ later.length = 2 ∧ OnlyChanges later := by
  have arrives : Move settings c _ { c with line := c.line ++ [_] } :=
    .queue (o := .changed selection) (s := s) rfl 0
  rw [empty] at arrives
  have begins := @Move.begin settings
    { c with line := [] ++ [(0, .switch (s.resolve selection) false)] } 0 _ [] [] free rfl s
  refine ⟨_, _, (Chronicle.single arrives).snoc begins, rfl, ?_⟩
  intro e member k o effects outcome arrived
  subst arrived
  rcases List.mem_cons.mp member with first | second
  · cases first
    exact ⟨selection, rfl⟩
  · cases List.mem_singleton.mp second

/-- The user selects the default in another spelling, and then another interpreter. -/
theorem respelling_run : ∃ h c, Chronicle pinnedSettings (.initial pinnedSettings simpleHost) h c ∧
    announced h.effects = ["/opt/python"] ∧ c.holder = none ∧ c.line = [] := by
  have idle : Chronicle pinnedSettings (.initial pinnedSettings simpleHost) [] _ := .nil
  have respelled := idle
    |>.snoc (.queue (o := .select "/venv//bin/python") (s := simpleHost) rfl 0)
    |>.snoc (@Move.begin _ _ 0 (.switch "/venv//bin/python" true) [] [] rfl rfl simpleHost)
    |>.snoc (@Move.answer _ _ 0 (.verifying "/venv//bin/python" true) rfl simpleHost
      (Verdict.compatible []))
    |>.snoc (@Move.answer _ _ 0 (.launching ⟨1⟩ "/venv//bin/python") rfl simpleHost
      (Except.ok ()))
  have moved := respelled
    |>.snoc (.queue (o := .select "/opt/python") (s := simpleHost) rfl 1)
    |>.snoc (@Move.begin _ _ 1 (.switch "/opt/python" true) [] [] rfl rfl simpleHost)
    |>.snoc (@Move.answer _ _ 1 (.verifying "/opt/python" true) rfl simpleHost
      (Verdict.compatible []))
    |>.snoc (@Move.answer _ _ 1 (.stopping ⟨1⟩ (.launch "/opt/python")) rfl simpleHost ())
    |>.snoc (@Move.answer _ _ 1 (.launching ⟨2⟩ "/opt/python") rfl simpleHost (Except.ok ()))
  exact ⟨_, _, moved, by decide +kernel, rfl, rfl⟩

end Crowd

/-! ## The main statement -/

open Crowd

/-- **The host knows the preference.** Along every run, in which any operations overlap in any
order:

* at every moment, and so whenever the controller is free, a host that began with the configured
  default and followed the announcements prefers what the controller prefers, up to the spelling;
* an operation that has not got the controller yet has announced nothing, and whatever state the
  controller is in when the operation gets it, it announces at most one interpreter, which is the
  preferred one then; and it announces one if and only if another interpreter than before is
  preferred, up to the spelling;
* if changes are not followed and a default is configured, then no change that the host reports
  announces anything or alters the controller, whatever was selected before; and neither does any
  sequence of them. -/
theorem replay_gives_preference {settings : Settings} {s : Surroundings} {h : History} {c : Crowd}
    (run : Chronicle settings (.initial settings s) h c) :
    Agree (replay (settings.defaultInterpreter.map s.resolve) h.effects) c.controller.preferred ∧
    (∀ (o : Operation) (s' : Surroundings), announced (o.accept s').1 = []) ∧
    (∀ (n : Controller) (command : Command) (xs : List Exchange) (t : Turn),
      Performance settings n command xs t →
      (announced t.effects).length ≤ 1 ∧
      (announced t.effects ≠ [] ↔ ¬ Agree n.preferred t.state.preferred) ∧
      ∀ interpreter ∈ announced t.effects, t.state.preferred = some interpreter) ∧
    (settings.followChanges = false → settings.defaultInterpreter.isSome →
      (∀ (n : Controller) (candidate : String) (xs : List Exchange) (t : Turn),
        Performance settings n (.switch candidate false) xs t →
        t.state = n ∧ announced t.effects = [] ∧ t.progress = .finished .done) ∧
      (c.holder = none → c.line = [] → ∀ (later : History) (c' : Crowd),
        Chronicle settings c later c' → OnlyChanges later →
        c'.controller = c.controller ∧ announced later.effects = [])) := by
  refine ⟨run.replay_agrees, Operation.announced_accept, fun _ _ _ _ performed =>
    performed.announced_iff, fun unfollowed configured => ?_⟩
  have pinned : Pinned settings = true := by
    rw [Pinned, unfollowed, configured]
    rfl
  constructor
  · intro n candidate xs t performed
    obtain ⟨_, rfl⟩ := performed.of_pinned pinned
    exact ⟨rfl, rfl, rfl⟩
  · intro free empty later c' goesOn only
    have wait : c.ChangesWait :=
      ⟨free, fun x member => absurd (empty ▸ member) List.not_mem_nil⟩
    exact (goesOn.of_pinned pinned wait only).2

/-- Of the two selections one was announced. A change that the host reports after that alters
nothing, though the selected interpreter is not the default. -/
theorem replay_gives_preference_pinned :
    ∃ (h later : History) (c c' : Crowd),
      Chronicle pinnedSettings (.initial pinnedSettings simpleHost) h c ∧
      Agree (some "/opt/python") c.controller.preferred ∧
      Chronicle pinnedSettings c later c' ∧ later.length = 2 ∧
      c'.controller = c.controller ∧ announced later.effects = [] := by
  obtain ⟨h, c, run, told, free, empty⟩ := respelling_run
  obtain ⟨known, _, _, pinned⟩ := replay_gives_preference run
  obtain ⟨later, c', reported, two, only⟩ := exists_change pinnedSettings free empty simpleHost
    "/usr/bin/python"
  obtain ⟨unaltered, silent⟩ := (pinned rfl rfl).2 free empty later c' reported only
  rw [replay, told] at known
  exact ⟨h, later, c, c', run, known, reported, two, unaltered, silent⟩

end Gatekeeper.Session
