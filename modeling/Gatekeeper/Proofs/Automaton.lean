set_option autoImplicit false

/-!
# Automata

A text is cut into tokens character by character, a document is read token by token, and what it
says is found line by line. Each of these is an automaton whose steps may fail, and `runAll` takes
its steps one after another. A step that may start from nothing is taken by `runOn`.
-/

namespace Gatekeeper

variable {σ α : Type} {step : σ → α → Option σ}

/-- Takes a step for each input, as long as none fails. -/
def runAll (step : σ → α → Option σ) (s : σ) (as : List α) : Option σ := as.foldlM step s

theorem runAll_cons (s : σ) (a : α) (as : List α) :
    runAll step s (a :: as) = (step s a).bind fun s => runAll step s as := List.foldlM_cons

theorem runAll_append (s : σ) (as bs : List α) :
    runAll step s (as ++ bs) = (runAll step s as).bind fun s => runAll step s bs :=
  List.foldlM_append

theorem runAll_singleton (s : σ) (a : α) : runAll step s [a] = step s a := by
  rw [runAll_cons]
  cases step s a <;> rfl

variable {β : Type} {f : α → Option β → Option β}

/-- Takes a step for each input, each of which leaves something. -/
def runOn (f : α → Option β → Option β) (b : Option β) (as : List α) : Option (Option β) :=
  runAll (fun b a => (f a b).map some) b as

theorem runOn_cons (b : Option β) (a : α) (as : List α) :
    runOn f b (a :: as) = (f a b).bind fun b => runOn f (some b) as := by
  rw [runOn, runAll_cons, Option.bind_map]
  rfl

theorem runOn_append (b : Option β) (as bs : List α) :
    runOn f b (as ++ bs) = (runOn f b as).bind fun b => runOn f b bs := runAll_append b as bs

end Gatekeeper
