import Gatekeeper.Console.Program
import Gatekeeper.Proofs.Console.Course

set_option autoImplicit false

/-!
# What the program does is a course

The program runs one errand after another: while one has the controller no other one asks for it,
and files are read only when the lines that came with them have been obeyed. That is one of the
courses that a session can take (`Program.exists_course`), so what holds of every course holds of
the program.
-/

namespace Gatekeeper.Console

open Session

/-! ## Operations -/

namespace Floor

/-- Nobody has the controller, which is `n`, or waits for it. -/
structure Free (c : Crowd) (n : Controller) : Prop where
  controller : c.controller = n
  holder : c.holder = none
  line : c.line = []

/-- Some course leads from one floor to the other. -/
def Reaches (settings : Settings) (f f' : Floor) : Prop := ∃ h, Course settings f h f'

namespace Reaches

variable {settings : Settings} {f f' f'' : Floor} {e : Option Entry}

theorem refl (settings : Settings) (f : Floor) : Reaches settings f f := ⟨[], .nil⟩

theorem trans (first : Reaches settings f f') (second : Reaches settings f' f'') :
    Reaches settings f f'' := by
  obtain ⟨h, first⟩ := first
  obtain ⟨k, second⟩ := second
  exact ⟨h ++ k, first.trans second⟩

theorem of_step (step : Step settings f e f') : Reaches settings f f' := ⟨_, .snoc .nil step⟩

end Reaches

variable {σ : Type} (p : Parts σ) (settings : Settings)

/-- An operation that has the controller goes on until it is over. -/
theorem reaches_drive (r : Running σ) (progress : Progress) (f : Floor) (c : Crowd) (k : Nat)
    (effects : List Effect) (free : c.holder = none) :
    ∃ crowd, Reaches settings { f with crowd := c.turned k ⟨r.controller, effects, progress⟩ }
        { f with crowd } ∧
      crowd.controller = (r.drive p progress).1.controller ∧ crowd.holder = none ∧
      crowd.line = c.line := by
  induction r, progress using Running.drive.induct p generalizing c effects with
  | case1 r result =>
      rw [Running.drive]
      exact ⟨_, .refl settings _, rfl, rfl, rfl⟩
  | case2 r stage a world asked turn ih =>
      rw [Running.drive]
      simp only [asked]
      obtain ⟨crowd, goesOn, ends⟩ := ih c turn.effects free
      have first : Crowd.Move settings (c.turned k ⟨r.controller, effects, .waiting stage⟩)
          (.answered k stage a turn) (c.turned k turn) := .answer rfl (p.surroundings world) a
      have answers : Step settings
          { f with crowd := c.turned k ⟨r.controller, effects, .waiting stage⟩ }
          (some (.happened (.answered k stage a turn))) { f with crowd := c.turned k turn } :=
        .answer first
      exact ⟨crowd, (Reaches.of_step answers).trans goesOn, ends⟩

/-- **An operation that is run on its own is a course**: its errand asks for the controller, gets
it, and goes on until it is over. -/
theorem reaches_run (r : Running σ) {o : Operation} {f : Floor} {k : Nat}
    {before behind : List Errand} (ready : f.errands = before ++ ⟨k, .operation o⟩ :: behind)
    (free : Free f.crowd r.controller) :
    ∃ crowd, Reaches settings f { f with errands := before ++ behind, crowd } ∧
      Free crowd (r.run p settings o).1.controller := by
  rw [Running.run]
  rcases accepted : o.accept (p.surroundings r.parts) with ⟨effects, result | command⟩
  · exact ⟨_, .of_step (.ask ready (.dismiss accepted k)), free.controller, free.holder, free.line⟩
  · let parts := effects.foldl p.note r.parts
    let turn := r.controller.begin settings (p.surroundings parts) command
    have asks : Reaches settings f _ := .of_step (.ask ready (.queue accepted k))
    -- the line has been empty, so the errand is the first one in it
    have first : f.crowd.line ++ [(k, command)] = [(k, command)] := by
      rw [free.line, List.nil_append]
    have takes : f.crowd.controller.begin settings (p.surroundings parts) command = turn := by
      rw [free.controller]
    have begins := @Step.begin settings
      { f with
        errands := before ++ behind
        crowd := { f.crowd with line := f.crowd.line ++ [(k, command)] } }
      k command [] free.holder first (p.surroundings parts) turn takes
    obtain ⟨crowd, goesOn, controller, holder, line⟩ :=
      reaches_drive p settings (Running.settle p parts turn) turn.progress
        { f with errands := before ++ behind } { f.crowd with line := [] } k turn.effects
        free.holder
    exact ⟨crowd, asks.trans ((Reaches.of_step begins).trans goesOn), controller, holder, line⟩

end Floor

/-! ## What a session does -/

namespace Terminal

open Floor

/-- The session on a floor: the lines that are to come, and the files that are being read. -/
structure On (settings : Settings) (lines documents : List String) (t : Terminal) (f : Floor) :
    Prop where
  settings_eq : t.settings = settings
  free : Free f.crowd t.running.controller
  lines_eq : f.lines = lines
  isOpen : f.closed = false
  duties : f.errands.map Errand.duty = documents.map .document

/-- Only the controller and the settings of a session matter. -/
def Same (t t' : Terminal) : Prop :=
  t'.running.controller = t.running.controller ∧ t'.settings = t.settings

/-- The act is a course, in which no line is read. -/
def Act.Sound (act : Act) : Prop :=
  ∀ {settings : Settings} {lines documents : List String} {t : Terminal} {f : Floor},
    On settings lines documents t f →
      ∃ f', Reaches settings f f' ∧ On settings lines documents (act t).2 f'

variable {settings : Settings} {lines documents : List String} {t t' : Terminal} {f : Floor}

theorem On.same (on : On settings lines documents t f) (same : Same t t') :
    On settings lines documents t' f where
  settings_eq := same.2.trans on.settings_eq
  free := ⟨on.free.controller.trans same.1.symm, on.free.holder, on.free.line⟩
  lines_eq := on.lines_eq
  isOpen := on.isOpen
  duties := on.duties

theorem doAll_snd (acts : List Act) (t : Terminal) :
    (doAll acts t).2 = acts.foldl (fun t act => (act t).2) t :=
  (List.foldl_hom Prod.snd fun _ _ => rfl).symm

/-- Acts that are courses are one course, in order. -/
theorem sound_doAll {acts : List Act} (sound : ∀ act ∈ acts, act.Sound) :
    Act.Sound (doAll acts) := by
  intro settings lines documents t f on
  rw [doAll_snd]
  induction acts generalizing t f with
  | nil => exact ⟨f, .refl settings f, on⟩
  | cons act acts ih =>
      obtain ⟨f', first, on'⟩ := sound act List.mem_cons_self on
      obtain ⟨f'', rest, on''⟩ := ih (fun x member => sound x (List.mem_cons_of_mem _ member)) on'
      exact ⟨f'', first.trans rest, on''⟩

/-- Printing leaves the controller alone. -/
theorem same_print (attentive : Bool) (e : Entry) (t : Terminal) :
    Same t (print attentive e t).2 := by
  cases e with
  | event e =>
      cases e with
      | bound interpreter =>
          rw [print, record]
          split <;> exact ⟨rfl, rfl⟩
      | _ => exact ⟨rfl, rfl⟩
  | _ => exact ⟨rfl, rfl⟩

theorem same_printJournal (attentive : Bool) (t : Terminal) :
    Same t (printJournal attentive t).2 := by
  rw [printJournal, doAll_snd]
  generalize t.running.parts.journal = journal
  have start : Same t (t.onDesk fun d => { d with journal := [] }) := ⟨rfl, rfl⟩
  revert start
  generalize (t.onDesk fun d => { d with journal := [] }) = t'
  intro start
  induction journal generalizing t' with
  | nil => exact start
  | cons e journal ih =>
      have printed := same_print attentive e t'
      exact ih _ ⟨printed.1.trans start.1, printed.2.trans start.2⟩

theorem settings_perform (attentive : Bool) (o : Operation) (t : Terminal) :
    (t.perform attentive o).terminal.settings = t.settings :=
  (same_printJournal attentive
    { t with running := (t.running.run Desk.parts t.settings o).1 }).2

/-- An errand that is ready is run, and what happens is printed. -/
theorem reaches_perform (attentive : Bool) {o : Operation} {k : Nat} {before behind : List Errand}
    (ready : f.errands = before ++ ⟨k, .operation o⟩ :: behind)
    (free : Free f.crowd t.running.controller) :
    ∃ crowd, Reaches t.settings f { f with errands := before ++ behind, crowd } ∧
      Free crowd (t.perform attentive o).terminal.running.controller := by
  have printed := same_printJournal attentive
    { t with running := (t.running.run Desk.parts t.settings o).1 }
  obtain ⟨crowd, reaches, free'⟩ := reaches_run Desk.parts t.settings t.running ready free
  exact ⟨crowd, reaches, free'.controller.trans printed.1.symm, free'.holder, free'.line⟩

/-- The errand that was begun last is run. -/
theorem On.perform (on : On settings lines documents t f) (attentive : Bool) (o : Operation) :
    ∃ f', Reaches settings (f.send (.operation o)) f' ∧
      On settings lines documents (t.perform attentive o).terminal f' := by
  obtain ⟨crowd, reaches, free⟩ :=
    reaches_perform attentive (f := f.send (.operation o)) (t := t) rfl on.free
  rw [on.settings_eq, List.append_nil] at reaches
  exact ⟨_, reaches, (settings_perform attentive o t).trans on.settings_eq, free, on.lines_eq,
    on.isOpen, on.duties⟩

theorem sound_tell (stopped : List Id) : Act.Sound (tell stopped) := by
  refine sound_doAll ?_
  intro act member
  obtain ⟨session, _, rfl⟩ := List.mem_map.mp member
  intro settings lines documents t f on
  obtain ⟨f', reaches, on'⟩ := on.perform true (.exited session)
  exact ⟨f', (Reaches.of_step (.report on.isOpen session)).trans reaches, on'⟩

theorem sound_idle : Act.Sound idle := by
  intro settings lines documents t f on
  have settled : On settings lines documents (t.onDesk Desk.settle) f := on.same ⟨rfl, rfl⟩
  refine sound_doAll ?_ settled
  intro act member
  rcases List.mem_pair.mp member with rfl | rfl
  · intro settings lines documents t f on
    exact ⟨f, .refl settings f, on.same (same_printJournal true t)⟩
  · exact sound_tell _

/-- An operation that a user asks for, with what follows from it. -/
theorem On.attend (on : On settings lines documents t f) (o : Operation) :
    ∃ f', Reaches settings (f.send (.operation o)) f' ∧
      On settings lines documents (doAll [Terminal.attend o, idle] t).2 f' := by
  obtain ⟨f₁, performs, on₁⟩ := on.perform true o
  obtain ⟨f₂, tells, on₂⟩ := sound_tell (t.perform true o).stopped on₁
  obtain ⟨f₃, idles, on₃⟩ := sound_idle on₂
  exact ⟨f₃, (performs.trans tells).trans idles, by rw [doAll_snd]; exact on₃⟩

/-- A file is read and shown to the server, or given up. -/
theorem On.openFile {path : String} (on : On settings lines (path :: documents) t f) :
    ∃ f', Reaches settings f f' ∧ On settings lines documents (Terminal.openFile path t).2 f' := by
  obtain ⟨⟨k, duty⟩, behind, errands, here, rest⟩ := List.map_eq_cons_iff.mp on.duties
  cases here
  have reads : f.errands = [] ++ ⟨k, .document path⟩ :: behind := errands
  have drops : ∃ f', Reaches settings f f' ∧ On settings lines documents t f' :=
    ⟨_, .of_step (.drop reads), on.settings_eq, on.free, on.lines_eq, on.isOpen, rest⟩
  have shows : ∀ absolute text, ∃ f', Reaches settings f f' ∧
      On settings lines documents (t.perform true (.openDocument absolute text)).terminal f' := by
    intro absolute text
    let o : Operation := .openDocument absolute text
    obtain ⟨crowd, reaches, free⟩ := reaches_perform true (t := t) (o := o)
      (f := { f with errands := [] ++ ⟨k, .operation o⟩ :: behind }) rfl on.free
    rw [on.settings_eq] at reaches
    exact ⟨_, (Reaches.of_step (.read reads absolute text)).trans reaches,
      (settings_perform true _ t).trans on.settings_eq, free, on.lines_eq, on.isOpen, rest⟩
  rw [Terminal.openFile]
  split
  · exact drops
  · rename_i absolute _
    split
    · exact drops
    · rename_i text _
      dsimp only
      split <;> exact shows absolute text

/-- The files that are being read are shown or given up, one after another. -/
theorem On.openAll (on : On settings lines documents t f) :
    ∃ f', Reaches settings f f' ∧
      On settings lines [] (doAll (documents.map fun path => obey (.open path)) t).2 f' := by
  rw [doAll_snd]
  induction documents generalizing t f with
  | nil => exact ⟨f, .refl settings f, on⟩
  | cons path documents ih =>
      obtain ⟨f₁, opens, on₁⟩ := on.openFile
      obtain ⟨f₂, idles, on₂⟩ := sound_idle on₁
      obtain ⟨f₃, rest, on₃⟩ := ih on₂
      refine ⟨f₃, (opens.trans idles).trans rest, ?_⟩
      rw [List.map_cons, List.foldl_cons, obey, doAll_snd]
      exact on₃

/-- A command other than the one that ends the session is obeyed, where it reads no file. -/
theorem On.obey {line : String} {c : Command} (on : On settings (line :: lines) documents t f)
    (reads : Command.read line = .ok (some c)) (quit : c ≠ .quit) (file : ∀ path, c ≠ .open path) :
    ∃ f', Reaches settings f f' ∧ On settings lines documents (Terminal.obey c t).2 f' := by
  have idle : c.duty? = none → ∃ f', Reaches settings f f' ∧ On settings lines documents t f' := by
    intro none
    refine ⟨_, .of_step (.pass on.isOpen on.lines_eq ?_), on.settings_eq, on.free, rfl, on.isOpen,
      on.duties⟩
    intro c' reads'
    cases reads.symm.trans reads'
    exact ⟨none, quit⟩
  have runs : ∀ o, c.duty? = some (.operation o) → ∃ f', Reaches settings f f' ∧
      On settings lines documents (doAll [Terminal.attend o, Terminal.idle] t).2 f' := by
    intro o needs
    have taken : On settings lines documents t { f with lines } :=
      ⟨on.settings_eq, on.free, rfl, on.isOpen, on.duties⟩
    obtain ⟨f', reaches, on'⟩ := taken.attend o
    exact ⟨f', (Reaches.of_step (.send on.isOpen on.lines_eq reads needs)).trans reaches, on'⟩
  cases c with
  | status => exact idle rfl
  | interpreter => exact idle rfl
  | restart => exact runs _ rfl
  | stop => exact runs _ rfl
  | use path => exact runs _ rfl
  | «open» path => exact absurd rfl (file path)
  | help => exact idle rfl
  | quit => exact absurd rfl quit

end Terminal

/-! ## What the program does -/

namespace Program

open Floor Terminal

/-- The program on a floor: it waits for the lines that are to come, or the session is over. -/
def On (settings : Settings) (lines : List String) (f : Floor) : Program → Prop
  | waiting t => Terminal.On settings lines [] t f
  | ended _ => f.closed = true ∧ ∃ n, Free f.crowd n

variable {settings : Settings} {lines documents : List String} {t : Terminal} {f : Floor}

/-- Once reading has ended, the controller is deactivated. -/
theorem reaches_close (on : Terminal.On settings lines documents t f)
    (step : Step settings f (some (.sent f.next (.operation .deactivate))) f.close)
    (later : List String) :
    ∃ f', Reaches settings f f' ∧ ((waiting t).close).2.On settings later f' := by
  obtain ⟨crowd, reaches, free⟩ := reaches_perform false (t := t) (f := f.close) rfl on.free
  rw [on.settings_eq] at reaches
  exact ⟨_, (Reaches.of_step step).trans reaches, rfl, _, free⟩

/-- **Lines that come together are obeyed in a course.** -/
theorem reaches_obeyAll {later : List String} {typed : List String}
    (on : Terminal.On settings (typed ++ later) documents t f) :
    ∃ f', Reaches settings f f' ∧ (obeyAll documents t typed).2.On settings later f' := by
  induction typed generalizing documents t f with
  | nil => exact on.openAll
  | cons line rest ih =>
      -- a line without an errand is only taken off the input
      have passes : Idle line → ∃ f', Reaches settings f f' ∧
          (obeyAll documents t rest).2.On settings later f' := by
        intro idle
        obtain ⟨f', reaches, on'⟩ := ih (f := { f with lines := rest ++ later })
          ⟨on.settings_eq, on.free, rfl, on.isOpen, on.duties⟩
        exact ⟨f', (Reaches.of_step (.pass on.isOpen on.lines_eq idle)).trans reaches, on'⟩
      have obeys : ∀ c, Command.read line = .ok (some c) → c ≠ .quit → (∀ path, c ≠ .open path) →
          ∃ f', Reaches settings f f' ∧
            (obeyAll documents (t.obey c).2 rest).2.On settings later f' := by
        intro c reads quit file
        obtain ⟨f₁, obeyed, on₁⟩ := on.obey reads quit file
        obtain ⟨f₂, goesOn, on₂⟩ := ih on₁
        exact ⟨f₂, obeyed.trans goesOn, on₂⟩
      rw [obeyAll]
      split
      · rename_i reads
        exact passes fun c reads' => nomatch reads.symm.trans reads'
      · rename_i reads
        exact reaches_close on (.quit on.isOpen on.lines_eq reads) later
      · rename_i path reads
        have begun : Terminal.On settings (rest ++ later) (documents ++ [path]) t
            ({ f with lines := rest ++ later }.send (.document path)) := by
          refine ⟨on.settings_eq, on.free, rfl, on.isOpen, ?_⟩
          rw [List.map_append, ← on.duties]
          exact List.map_append
        obtain ⟨f', reaches, on'⟩ := ih begun
        exact ⟨f', (Reaches.of_step (.send on.isOpen on.lines_eq reads rfl)).trans reaches, on'⟩
      · rename_i c quit file reads
        exact obeys c reads quit file
      · rename_i complaint reads
        exact passes fun c reads' => nomatch reads.symm.trans reads'

/-- The lines of several inputs. -/
def typed (inputs : List String) : List String :=
  inputs.flatMap fun s => (s.toList.splitOn '\n').map String.ofList

/-- Inputs are obeyed in a course. -/
theorem reaches_inputs (inputs : List String) {p : Program} {f : Floor}
    (on : p.On settings (typed inputs) f) :
    ∃ f', Reaches settings f f' ∧ (inputs.foldl (fun p s => (p.line s).2) p).On settings [] f' := by
  induction inputs generalizing p f with
  | nil => exact ⟨f, .refl settings f, on⟩
  | cons s inputs ih =>
      cases p with
      | waiting t =>
          obtain ⟨f₁, obeyed, on₁⟩ := reaches_obeyAll on
          obtain ⟨f₂, goesOn, on₂⟩ := ih on₁
          exact ⟨f₂, obeyed.trans goesOn, on₂⟩
      | ended e => exact ih on

/-- An activation with which a session begins is a course. -/
theorem reaches_activate {t t' : Terminal} {s : Surroundings} (lines : List String)
    (begins : t.running.controller = .initial t.settings s) (activates : t.activate.2 = .ok t') :
    ∃ f, Reaches t.settings (opening t.settings s lines) f ∧
      Terminal.On t.settings lines [] t' f := by
  have on : Terminal.On t.settings lines [] t
      { lines, crowd := { controller := .initial t.settings s } } :=
    ⟨rfl, ⟨begins.symm, rfl, rfl⟩, rfl, rfl, rfl⟩
  obtain ⟨f₁, performs, on₁⟩ := on.perform true .activate
  obtain ⟨f₂, tells, on₂⟩ := sound_tell (t.perform true .activate).stopped on₁
  obtain ⟨f₃, idles, on₃⟩ := sound_idle on₂
  refine ⟨f₃, (performs.trans tells).trans idles, ?_⟩
  rw [activate] at activates
  dsimp only at activates
  split at activates
  · cases activates
  · rw [← Except.ok.inj activates, doAll_snd]
    exact on₃

/-- **Whatever is typed, the program takes a course of those lines**, from the activation of the
controller to its deactivation. -/
theorem exists_course {t t' : Terminal} {s : Surroundings} (inputs : List String)
    (begins : t.running.controller = .initial t.settings s) (activates : t.activate.2 = .ok t') :
    ∃ h f, Course t.settings (opening t.settings s (typed inputs)) h f ∧
      (inputs.foldl (fun p s => (p.line s).2) (waiting t')).close.2.On t.settings [] f := by
  obtain ⟨f₁, activated, on₁⟩ := reaches_activate (typed inputs) begins activates
  obtain ⟨f₂, obeyed, on₂⟩ := reaches_inputs inputs (p := waiting t') on₁
  generalize inputs.foldl (fun p s => (p.line s).2) (waiting t') = p at on₂
  cases p with
  | waiting t =>
      obtain ⟨f₃, ⟨h, closes⟩, on₃⟩ := reaches_close on₂ (.close on₂.isOpen on₂.lines_eq) []
      obtain ⟨k, course⟩ := activated.trans obeyed
      exact ⟨_, f₃, course.trans closes, on₃⟩
  | ended e =>
      obtain ⟨h, course⟩ := activated.trans obeyed
      exact ⟨h, f₂, course, on₂⟩

end Program

end Gatekeeper.Console
