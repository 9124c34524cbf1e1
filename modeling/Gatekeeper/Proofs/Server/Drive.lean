import Gatekeeper.Proofs.Server.Course
import Gatekeeper.Server.Exchange
import Mathlib.Data.Option.Basic

set_option autoImplicit false

/-!
# What is run is made of steps

A client that is run with a scripted server goes on in a fixed order (`Exchange.drive`). Whatever it
does is a course of its link, in which the client is called for nothing but what it was called for
(`Exchange.start_course`, `Exchange.openDocument_course`, `Exchange.shutdown_course`). So what holds
of every course holds of it.
-/

namespace Gatekeeper.Server

namespace Exchange

open Link

/-- `x.Reaches y`: without a call to the client, the link of `x` becomes that of `y`. -/
def Reaches (x y : Exchange) : Prop := ∃ h, Course x.link h y.link ∧ h.IsUncalled

variable {x y z : Exchange}

theorem Reaches.trans (first : x.Reaches y) (second : y.Reaches z) : x.Reaches z := by
  obtain ⟨h, run, uncalled⟩ := first
  obtain ⟨k, run', uncalled'⟩ := second
  exact ⟨h ++ k, run.trans run', fun d member => (List.mem_append.mp member).elim
    (uncalled d) (uncalled' d)⟩

theorem reaches_of_link_eq (same : y.link = x.link) : x.Reaches y :=
  ⟨[], same ▸ .nil, nofun⟩

theorem reaches_of_does (goesOn : ∃ d, x.link.Does d y.link ∧ d.isCall = false) : x.Reaches y := by
  obtain ⟨d, does, uncalled⟩ := goesOn
  refine ⟨[d], .snoc .nil does, fun _ member => ?_⟩
  rwa [List.mem_singleton.mp member]

/-- A move of the actor is one of the server. -/
theorem reaches_of_move {m : Move} {f : Link → Exchange} (link_f : ∀ l, (f l).link = l)
    (moved : (x.link.move? m).map f = some y) : x.Reaches y := by
  obtain ⟨l, movable, rfl⟩ := Option.map_eq_some_iff.mp moved
  exact reaches_of_does ⟨.server m, (link_f l).symm ▸ Does.server m movable, rfl⟩

theorem write?_reaches {bytes : List UInt8} {rest : List Machine.Action}
    (written : x.write? bytes rest = some y) : x.Reaches y := by
  unfold write? at written
  split at written
  · cases written
    exact reaches_of_link_eq rfl
  · dsimp only at written
    split at written
    · cases written
    · exact reaches_of_move (fun _ => rfl) written

theorem perform?_reaches {a : Machine.Action} {rest : List Machine.Action}
    (performed : x.perform? a rest = some y) : x.Reaches y := by
  cases a with
  | reply members => cases performed; exact reaches_of_link_eq rfl
  | send v => exact write?_reaches performed
  | write bytes => exact write?_reaches performed
  | pause length => cases performed
  | exit => exact reaches_of_move (fun _ => rfl) performed
  | closeOutput => exact reaches_of_move (fun _ => rfl) performed
  | hang => cases performed; exact reaches_of_link_eq rfl

theorem read?_reaches (read : x.read? = some y) : x.Reaches y := by
  unfold read? at read
  split at read
  · cases read
    exact reaches_of_link_eq rfl
  · cases read
    exact reaches_of_link_eq rfl
  · dsimp only at read
    split at read
    · exact reaches_of_move (fun _ => rfl) read
    · split at read
      · cases read
      · exact reaches_of_move (fun _ => rfl) read

theorem background?_reaches (goesOn : x.background? = some y) : x.Reaches y := by
  rw [background?, Option.orElse_eq_some, Option.orElse_eq_some] at goesOn
  rcases goesOn with acts | ⟨-, reads | ⟨-, writes⟩⟩
  · unfold actor? at acts
    split at acts
    · cases acts
    · split at acts
      · exact perform?_reaches acts
      · exact read?_reaches acts
  · obtain ⟨l, goesOn, rfl⟩ := Option.map_eq_some_iff.mp reads
    exact reaches_of_does (does_of_reader? goesOn)
  · obtain ⟨l, goesOn, rfl⟩ := Option.map_eq_some_iff.mp writes
    exact reaches_of_does (does_of_writer? goesOn)

theorem settle_reaches (fuel : Nat) (x : Exchange) : x.Reaches (x.settle fuel) := by
  induction fuel generalizing x with
  | zero => exact reaches_of_link_eq rfl
  | succ fuel ih =>
      rw [settle]
      split
      · rename_i y goesOn
        exact (background?_reaches goesOn).trans (ih y)
      · exact reaches_of_link_eq rfl

theorem pass?_reaches (passed : x.pass? = some y) : x.Reaches y := by
  unfold pass? at passed
  split at passed
  · cases passed
  · cases passed
    exact reaches_of_link_eq rfl
  · rename_i link ticks _
    cases passed
    exact reaches_of_does (does_of_clock? ticks)
  · rename_i link length rest ticks _
    dsimp only at passed
    split at passed <;> cases passed
    · exact reaches_of_link_eq rfl
    · exact reaches_of_does (does_of_clock? ticks)

theorem foreground?_reaches (goesOn : x.foreground? = some y) : x.Reaches y := by
  unfold foreground? at goesOn
  split at goesOn
  · rename_i link calls
    cases goesOn
    exact reaches_of_does (does_of_caller? calls)
  · refine (settle_reaches patience x).trans ?_
    dsimp only at goesOn
    split at goesOn
    · rename_i link calls
      cases goesOn
      exact reaches_of_does (does_of_caller? calls)
    · exact pass?_reaches goesOn

/-- A client with a scripted server goes on in steps, without another call. -/
theorem drive_reaches (fuel : Nat) (x : Exchange) : x.Reaches (x.drive fuel) := by
  induction fuel generalizing x with
  | zero => exact reaches_of_link_eq rfl
  | succ fuel ih =>
      rw [drive]
      split
      · exact reaches_of_link_eq rfl
      · split
        · rename_i y goesOn
          exact (foreground?_reaches goesOn).trans (ih y)
        · exact reaches_of_link_eq rfl

/-- **A client that is started is in a course of its link**, and was not called for anything yet. -/
theorem start_course (c : Client) (cues : Machine.Cues) (agenda : List Machine.Action) :
    ∃ h, Course (.start c) h (start c cues agenda).link ∧ h.IsUncalled :=
  drive_reaches callSteps { link := .start c, actor := { cues, agenda } }

/-- **A call to show a document continues the course**, and is the only one. -/
theorem openDocument_course {sent : Except Failure Unit} (idle : x.link.caller = .idle sent)
    (path text : String) : ∃ h : History, Course x.link (.opens path text :: h)
      (x.openDocument path text).link ∧ h.IsUncalled := by
  obtain ⟨h, run, uncalled⟩ :=
    drive_reaches callSteps { x with link := x.link.openDocument path text }
  exact ⟨h, Course.trans (.snoc .nil (.openDocument idle path text)) run, uncalled⟩

/-- **So does the call to shut the server down.** -/
theorem shutdown_course {sent : Except Failure Unit} (idle : x.link.caller = .idle sent) :
    ∃ h : History, Course x.link (.shutsDown :: h) x.shutdown.link ∧ h.IsUncalled := by
  obtain ⟨h, run, uncalled⟩ := drive_reaches callSteps { x with link := x.link.request .shutdown }
  exact ⟨h, Course.trans (.snoc .nil (.shutdown idle)) run, uncalled⟩

end Exchange

end Gatekeeper.Server
