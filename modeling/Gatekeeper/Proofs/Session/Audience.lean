import Gatekeeper.Proofs.Session.Company
import Gatekeeper.Session.Live
import Gatekeeper.Session.Rehearsal

set_option autoImplicit false

/-!
# The host as an audience

What is emitted goes to a mailbox of limited size. The host takes from it when it likes and as much
as it likes, also between two events of one turn, and it may go away. Whatever it does, the
controller cannot tell: all that a run shows but for the mailbox is the same for every host. And the
host loses no more than it must: it receives what was emitted, in order, but for what was emitted
while the mailbox was full (`slow_host_has_no_influence`).

What is run with the parts of a rehearsal, or with those of a controller on a machine, is a run with
such a host (`Stand.view_hosted`, `Live.view_hosted`).
-/

namespace Gatekeeper.Session

variable {σ : Type}

/-! ## The host -/

/-- What the host does before it is told something: it takes the first of the events that wait, so
many of them, and then it may go away. -/
structure Attention where
  taken : Nat
  leaves : Bool := false

/-- A host, given by what it does before each event, the first event first. -/
abbrev Host := Nat → Attention

/-- An event that was emitted. -/
structure Emission where
  event : Event
  /-- How many events were waiting for the host. -/
  waiting : Nat

/-- The host's side of a run. -/
structure Audience where
  mailbox : Mailbox := {}
  /-- What the host has taken. -/
  received : List Event := []
  /-- What was emitted. -/
  emitted : List Emission := []

namespace Audience

def attend (a : Audience) (x : Attention) : Audience :=
  let mailbox := { a.mailbox with queued := a.mailbox.queued.drop x.taken }
  { a with
    received := a.received ++ a.mailbox.queued.take x.taken
    mailbox := if x.leaves then mailbox.close else mailbox }

def tell (a : Audience) (e : Event) : Audience :=
  { a with
    mailbox := a.mailbox.post e
    emitted := a.emitted ++ [⟨e, a.mailbox.queued.length⟩] }

/-- Takes note of an effect. What is published does not go to the mailbox. -/
def note (host : Host) (a : Audience) : Effect → Audience
  | .publish _ => a
  | .emit e => (a.attend (host a.emitted.length)).tell e

/-- What there was room for when it was emitted. -/
def fitting (a : Audience) : List Event :=
  (a.emitted.filter (·.waiting < Mailbox.capacity)).map Emission.event

/-- What the host has and may still get is what there was room for: all of it while the host is
there, and else what came before it left. -/
structure Fair (a : Audience) : Prop where
  bounded : a.mailbox.queued.length ≤ Mailbox.capacity
  begins_fitting : a.received ++ a.mailbox.queued <+: a.fitting
  eq_fitting : a.mailbox.listening = true → a.received ++ a.mailbox.queued = a.fitting

theorem fair_empty : Fair {} where
  bounded := Nat.zero_le _
  begins_fitting := List.nil_prefix
  eq_fitting := fun _ => rfl

variable {a : Audience}

/-- Taking moves events from the mailbox to the host; leaving forgets those that wait. -/
theorem Fair.attend (fair : a.Fair) (x : Attention) : (a.attend x).Fair := by
  have moved : (a.received ++ a.mailbox.queued.take x.taken) ++ a.mailbox.queued.drop x.taken =
      a.received ++ a.mailbox.queued := by
    rw [List.append_assoc, List.take_append_drop]
  cases leaves : x.leaves with
  | false =>
      refine ⟨?_, ?_, ?_⟩
      · simp only [Audience.attend, leaves, Bool.false_eq_true, if_false, List.length_drop]
        exact Nat.le_trans (Nat.sub_le _ _) fair.bounded
      · simp only [Audience.attend, leaves, Bool.false_eq_true, if_false, moved]
        exact fair.begins_fitting
      · simp only [Audience.attend, leaves, Bool.false_eq_true, if_false, moved]
        exact fair.eq_fitting
  | true =>
      refine ⟨?_, ?_, ?_⟩
      · simp [Audience.attend, leaves, Mailbox.close]
      · simp only [Audience.attend, leaves, if_true, Mailbox.close, List.append_nil]
        refine List.IsPrefix.trans ?_ fair.begins_fitting
        rw [← moved]
        exact List.prefix_append _ _
      · simp [Audience.attend, leaves, Mailbox.close]

theorem fitting_tell (a : Audience) (e : Event) : (a.tell e).fitting =
    a.fitting ++ if a.mailbox.queued.length < Mailbox.capacity then [e] else [] := by
  simp only [fitting, tell, List.filter_append, List.map_append]
  split <;> simp [*]

/-- An event is put behind those that wait if and only if there is room for it. -/
theorem Fair.tell (fair : a.Fair) (e : Event) : (a.tell e).Fair := by
  by_cases room : a.mailbox.queued.length < Mailbox.capacity
  · have fitting : (a.tell e).fitting = a.fitting ++ [e] := by rw [fitting_tell, if_pos room]
    cases listening : a.mailbox.listening with
    | true =>
        have mailbox : (a.tell e).mailbox =
            { a.mailbox with queued := a.mailbox.queued ++ [e] } := by
          simp [Audience.tell, Mailbox.post, listening, room]
        have all : (a.tell e).received ++ (a.tell e).mailbox.queued = (a.tell e).fitting := by
          rw [fitting, mailbox, ← fair.eq_fitting listening, List.append_assoc]
          rfl
        refine ⟨?_, ?_, fun _ => all⟩
        · rw [mailbox, List.length_append]
          exact room
        · exact ⟨[], by rw [List.append_nil, all]⟩
    | false =>
        -- the host has gone, and gets nothing any more
        have mailbox : (a.tell e).mailbox = a.mailbox := by
          simp [Audience.tell, Mailbox.post, listening]
        refine ⟨?_, ?_, ?_⟩
        · rw [mailbox]
          exact fair.bounded
        · rw [fitting, mailbox]
          exact fair.begins_fitting.trans (List.prefix_append _ _)
        · rw [mailbox, listening]
          exact nofun
  · have fitting : (a.tell e).fitting = a.fitting := by
      rw [fitting_tell, if_neg room, List.append_nil]
    have mailbox : (a.tell e).mailbox = a.mailbox := by simp [Audience.tell, Mailbox.post, room]
    refine ⟨?_, ?_, ?_⟩
    · rw [mailbox]
      exact fair.bounded
    · rw [fitting, mailbox]
      exact fair.begins_fitting
    · rw [fitting, mailbox]
      exact fair.eq_fitting

theorem Fair.note (fair : a.Fair) (host : Host) (e : Effect) : (a.note host e).Fair := by
  cases e with
  | publish s => exact fair
  | emit e => exact (fair.attend _).tell e

end Audience

/-! ## Runs with a host -/

/-- The state of the parts of a run, with what the run shows of itself. -/
structure Recorded (σ : Type) where
  world : σ
  /-- The requests, each with what was published when it was made. -/
  calls : List Call := []
  /-- The statuses that were published, and the events that were emitted. -/
  effects : List Effect := []

/-- The same with a host that listens. -/
structure Hosted (σ : Type) extends Recorded σ where
  audience : Audience := {}

/-- A change of the world leaves the record alone. -/
def Recorded.lift (change : σ → σ) (r : Recorded σ) : Recorded σ :=
  { r with world := change r.world }

def Hosted.lift (change : σ → σ) (h : Hosted σ) : Hosted σ := { h with world := change h.world }

namespace Parts

/-- The parts with a record of what they are told and asked. -/
def recorded (p : Parts σ) : Parts (Recorded σ) where
  surroundings r := p.surroundings r.world
  note r e := { r with world := p.note r.world e, effects := r.effects ++ [e] }
  answer r s stage :=
    let (a, world) := p.answer r.world s stage
    (a, { r with world, calls := r.calls ++ [⟨stage, s⟩] })

/-- The parts with a record and with a host, to whom the events are told. -/
def hosted (p : Parts σ) (host : Host) : Parts (Hosted σ) where
  surroundings h := p.surroundings h.world
  note h e := { toRecorded := p.recorded.note h.toRecorded e, audience := h.audience.note host e }
  answer h s stage :=
    let (a, r) := p.recorded.answer h.toRecorded s stage
    (a, { h with toRecorded := r })

variable (p : Parts σ) (host : Host)

/-- Who does not see the host sees no difference. -/
theorem view_recorded : (p.hosted host).View p.recorded Hosted.toRecorded where
  surroundings _ := rfl
  note _ _ := rfl
  answer _ _ _ := rfl

end Parts

/-- The events among the effects. -/
def emitted (effects : List Effect) : List Event :=
  effects.filterMap fun
    | .publish _ => none
    | .emit e => some e

/-- The host is told of every event, and it is treated fairly. -/
structure Hosted.Informed (h : Hosted σ) : Prop where
  told : h.audience.emitted.map Emission.event = emitted h.effects
  fair : h.audience.Fair

theorem Parts.keeps_informed (p : Parts σ) (host : Host) :
    (p.hosted host).Keeps Hosted.Informed where
  note {h} e informed := by
    refine ⟨?_, informed.fair.note host e⟩
    have told := informed.told
    cases e with
    | publish s => simpa [hosted, recorded, emitted, Audience.note] using told
    | emit e =>
        simp only [hosted, recorded, emitted, Audience.note, Audience.tell, Audience.attend,
          List.map_append, List.filterMap_append, List.map_cons, List.map_nil]
        rw [told]
        rfl
  answer _ _ informed := ⟨informed.told, informed.fair⟩

/-- Follows cues while the host listens. Nothing is recorded before. -/
def Company.playTo (host : Host) (p : Parts σ) (settings : Settings) (w : Company σ)
    (cues : List (Cue σ)) : Company (Hosted σ) :=
  (w.map fun world => { world }).play (p.hosted host) settings (cues.map (Cue.carry Hosted.lift))

/-! ## What is run -/

/-- A host that takes nothing. -/
def patient : Host := fun _ => { taken := 0 }

/-- A rehearsal is a run with a host that takes nothing until the end of a step: the mailbox of the
stand is the mailbox of that host. -/
theorem Stand.view_hosted : (Stand.parts.hosted patient).View Stand.parts
    (fun h => { h.world with mailbox := h.audience.mailbox }) where
  surroundings _ := rfl
  note h e := by cases e <;> rfl
  answer _ _ _ := rfl

/-- So is what is run on a machine. -/
theorem Live.view_hosted : (Live.parts.hosted patient).View Live.parts
    (fun h => { h.world with mailbox := h.audience.mailbox }) where
  surroundings _ := rfl
  note h e := by cases e <;> rfl
  answer h s stage := by cases stage <;> rfl

/-! ## The main statement -/

/-- **A slow host has no influence.** Take any parts, any state from which operations are run, and
any list of cues: operations that arrive, also while others are under way, answers, and changes of
the world. Let two hosts take events as they like.

After these cues, and so after any number of them, the controller is in the same state for both, the
operations have the same results, and those that are under way or wait are the same; the world, the
requests that were made, what was published, and what was emitted are the same.

And the events that a host has taken, followed by those that wait for it, are those that were
emitted when fewer than 64 were waiting, in order: all of them while the host listens, and of a host
that went away the ones before that. -/
theorem slow_host_has_no_influence (p : Parts σ) (settings : Settings) (start : Company σ)
    (cues : List (Cue σ)) (host other : Host) :
    let x := start.playTo host p settings cues
    let y := start.playTo other p settings cues
    (x.crowd = y.crowd ∧ x.parts.world = y.parts.world ∧ x.parts.calls = y.parts.calls ∧
      x.parts.effects = y.parts.effects) ∧
    let a := x.parts.audience
    let fitting := (a.emitted.filter (·.waiting < 64)).map Emission.event
    a.emitted.map Emission.event = emitted x.parts.effects ∧
      a.mailbox.queued.length ≤ 64 ∧
      a.received ++ a.mailbox.queued <+: fitting ∧
      (a.mailbox.listening = true → a.received ++ a.mailbox.queued = fitting) := by
  intro x y
  -- both runs look like the run with the record alone
  have same : ∀ host, (start.playTo host p settings cues).map Hosted.toRecorded =
      (start.map fun world => { world }).play p.recorded settings
        (cues.map (Cue.carry Recorded.lift)) :=
    fun host => (p.view_recorded host).play settings (fun _ _ => rfl) _ cues
  have alike : x.map Hosted.toRecorded = y.map Hosted.toRecorded :=
    (same host).trans (same other).symm
  have crowds := congrArg Company.crowd alike
  have records : x.parts.toRecorded = y.parts.toRecorded := congrArg Company.parts alike
  have changes : ∀ change (h : Hosted σ), h.Informed → (h.lift change).Informed :=
    fun _ _ informed => ⟨informed.told, informed.fair⟩
  have informed : x.parts.Informed :=
    (p.keeps_informed host).play settings changes _ cues ⟨rfl, Audience.fair_empty⟩
  exact ⟨⟨crowds, congrArg Recorded.world records, congrArg Recorded.calls records,
    congrArg Recorded.effects records⟩, informed.told, informed.fair.bounded,
    informed.fair.begins_fitting, informed.fair.eq_fitting⟩

/-- A host that takes every event before the next one. -/
def eager : Host := fun _ => { taken := 1 }

/-- A new controller whose host cannot tell of interpreters: every activation is refused with a
notice. -/
def newcomer : Company Stand where
  crowd := { controller := {} }
  parts := { script := { surroundings := ⟨false, none, id, fun _ => true⟩ } }

def activations : List (Cue Stand) := List.replicate 65 (.arrives .activate)

/-- Of 65 notices the patient host has lost the last one, and the eager one has lost none. The
controller is the same. -/
theorem slow_host_has_no_influence_overflow :
    let x := newcomer.playTo patient Stand.parts {} activations
    let y := newcomer.playTo eager Stand.parts {} activations
    let a := x.parts.audience
    let b := y.parts.audience
    x.crowd = y.crowd ∧ a.emitted.length = 65 ∧
      a.received ++ a.mailbox.queued = (a.emitted.filter (·.waiting < 64)).map Emission.event ∧
      (a.received.length, a.mailbox.queued.length) = (0, 64) ∧
      (b.received.length, b.mailbox.queued.length) = (64, 1) := by
  have listening : (newcomer.playTo patient Stand.parts {}
      activations).parts.audience.mailbox.listening = true := by decide +kernel
  obtain ⟨⟨crowds, _⟩, _, _, _, all⟩ :=
    slow_host_has_no_influence Stand.parts {} newcomer activations patient eager
  exact ⟨crowds, by decide +kernel, all listening, by decide +kernel, by decide +kernel⟩

end Gatekeeper.Session
