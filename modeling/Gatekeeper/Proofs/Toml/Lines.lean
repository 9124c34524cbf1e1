import Gatekeeper.Proofs.Automaton
import Gatekeeper.Toml.Table
import Mathlib.Data.List.Basic

set_option autoImplicit false

/-!
# Tables name by name

A line changes what stands under one name and leaves the rest of a table alone. So the lines of one
name alone decide what stands under that name when all lines are read (`Line.lookup_run`), and all
lines agree if those of each name do (`Line.isSome_run`). Where lines are about a table, they are in
turn lines about the names in it, together with a check on how the table came to be
(`Line.runOn_act_table`).
-/

namespace Gatekeeper.Toml

open Children

/-! ## What stands under a name -/

section Children

variable {name : String} {f : Option Node → Option Node} {cs cs' : Children}

theorem isSome_update (name : String) (f : Option Node → Option Node) (cs : Children) :
    (update name f cs).isSome = (f (cs.lookup name)).isSome := by
  induction cs with
  | nil => simp [update]
  | cons c cs ih =>
      obtain ⟨m, n⟩ := c
      by_cases same : m = name
      · simp [update, same]
      · have other : (name == m) = false := by simpa using Ne.symm same
        simp [update, same, List.lookup_cons, other, ih]

/-- A change of one name is the change of what stands under it. -/
theorem lookup_update (changed : update name f cs = some cs') (m : String) :
    cs'.lookup m = if m = name then f (cs.lookup name) else cs.lookup m := by
  induction cs generalizing cs' with
  | nil =>
      obtain ⟨n, made, rfl⟩ := Option.map_eq_some_iff.mp changed
      by_cases same : m = name
      · simp [same, made]
      · have other : (m == name) = false := by simpa using same
        simp [same, List.lookup_cons, other]
  | cons c cs ih =>
      obtain ⟨l, n⟩ := c
      rw [update] at changed
      split at changed
      · next here =>
        obtain ⟨n', made, rfl⟩ := Option.map_eq_some_iff.mp changed
        by_cases same : m = name
        · simp [same, here, made]
        · have other : (m == l) = false := by simpa [here] using same
          simp [same, List.lookup_cons, other]
      · next elsewhere =>
        obtain ⟨rest, made, rfl⟩ := Option.map_eq_some_iff.mp changed
        have apart : (name == l) = false := by simpa using Ne.symm elsewhere
        by_cases first : m = l
        · have other : m ≠ name := first ▸ elsewhere
          simp [first, if_neg elsewhere]
        · have second : (m == l) = false := by simpa using first
          simp only [List.lookup_cons, second, apart, ih made]

/-- The names of the children. -/
def names (cs : Children) : List String := cs.map (·.1)

theorem mem_names_update (changed : update name f cs = some cs') (m : String) :
    m ∈ names cs' ↔ m = name ∨ m ∈ names cs := by
  induction cs generalizing cs' with
  | nil =>
      obtain ⟨n, -, rfl⟩ := Option.map_eq_some_iff.mp changed
      simp [names]
  | cons c cs ih =>
      rw [update] at changed
      split at changed
      · next here =>
        obtain ⟨n', -, rfl⟩ := Option.map_eq_some_iff.mp changed
        simp [names, here]
      · obtain ⟨rest, made, rfl⟩ := Option.map_eq_some_iff.mp changed
        have inner := ih made
        simp only [names, List.map_cons, List.mem_cons] at inner ⊢
        rw [inner]
        exact or_left_comm

/-- No name comes to stand twice. -/
theorem nodup_update (changed : update name f cs = some cs') (once : (names cs).Nodup) :
    (names cs').Nodup := by
  induction cs generalizing cs' with
  | nil =>
      obtain ⟨n, -, rfl⟩ := Option.map_eq_some_iff.mp changed
      simp [names]
  | cons c cs ih =>
      have rest := List.nodup_cons.mp once
      rw [update] at changed
      split at changed
      · obtain ⟨n', -, rfl⟩ := Option.map_eq_some_iff.mp changed
        exact once
      · next elsewhere =>
        obtain ⟨cs'', made, rfl⟩ := Option.map_eq_some_iff.mp changed
        refine List.nodup_cons.mpr ⟨fun member => ?_, ih made rest.2⟩
        exact ((mem_names_update made _).mp member).elim elsewhere rest.1

/-- The fields that children make, name by name. -/
theorem lookup_fields (cs : Children) (m : String) :
    (Node.fields cs).lookup m = (cs.lookup m).map Node.value := by
  induction cs with
  | nil => rfl
  | cons c cs ih =>
      obtain ⟨l, n⟩ := c
      rw [Node.fields]
      cases same : m == l with
      | true => simp [List.lookup_cons, same]
      | false => simp [List.lookup_cons, same, ih]

theorem keys_fields (cs : Children) : (Node.fields cs).map (·.1) = names cs := by
  induction cs with
  | nil => rfl
  | cons c cs ih =>
      rw [Node.fields, List.map_cons, ih]
      rfl

end Children

/-! ## Lines -/

/-- What a line does in the table that it is about. -/
inductive Deed
  /-- Opens a table, or another table of an array of tables. -/
  | opens (array : Bool) (name : String)
  /-- Puts a value at a dotted key, if what is written says one. -/
  | puts (names : List String) (value : Option Value)

/-- A line of a document by what it does. -/
structure Line where
  /-- The path of the table that it is about. -/
  above : List String
  deed : Deed

namespace Deed

/-- The path from the table to what a deed is about. -/
def path : Deed → List String
  | opens _ name => [name]
  | puts names _ => names

/-- Does what a line says, in its table. -/
def apply : Deed → Children → Option Children
  | opens array name, cs => openAt array name cs
  | puts names value, cs => value.bind fun v => putDotted names v cs

end Deed

namespace Line

/-- The path to what a line is about. -/
def path (l : Line) : List String := l.above ++ l.deed.path

/-- Reads a line. -/
def apply (l : Line) : Children → Option Children := descend l.above l.deed.apply

/-- Reads a line where others have been read. -/
def step (cs : Children) (l : Line) : Option Children := l.apply cs

/-- The name under which a line changes something. -/
def name (l : Line) : String := l.path.headD ""

/-- What a line does to what stands under its name. -/
def act : Line → Option Node → Option Node
  | ⟨_ :: above, deed⟩ => within (apply ⟨above, deed⟩)
  | ⟨[], .opens array _⟩ => if array then openedElement else opened
  | ⟨[], .puts [] _⟩ => fun _ => none
  | ⟨[], .puts [_] value⟩ => fun n => value.bind fun v => placed v n
  | ⟨[], .puts (_ :: next :: path) value⟩ =>
    dottedWithin (!path.isEmpty) (apply ⟨[], .puts (next :: path) value⟩)

theorem update_none (name : String) (cs : Children) : update name (fun _ => none) cs = none := by
  rw [← Option.not_isSome_iff_eq_none, isSome_update]
  simp

theorem dottedWithin_none (onTheWay : Bool) :
    dottedWithin onTheWay (fun _ => none) = fun _ => none := by
  funext n
  unfold dottedWithin
  split <;> simp

/-- **A line changes what stands under its name.** -/
theorem apply_eq_update (l : Line) (cs : Children) : l.apply cs = update l.name l.act cs := by
  obtain ⟨above, deed⟩ := l
  cases above with
  | cons first above => rfl
  | nil =>
      cases deed with
      | opens array name => rfl
      | puts names value =>
          match names, value with
          | [], value =>
              change (value.bind fun _ => none) = update "" (fun _ => none) cs
              rw [update_none, Option.bind_fun_none]
          | name :: names, none =>
              have nothing : (Line.mk [] (.puts (name :: names) none)).act = fun _ => none := by
                cases names with
                | nil => rfl
                | cons next path => exact dottedWithin_none _
              rw [nothing, update_none]
              rfl
          | [name], some v => rfl
          | name :: next :: path, some v => rfl

/-- The lines of one name. -/
def named (m : String) (ls : List Line) : List Line := ls.filter (·.name == m)

theorem runAll_step_cons (l : Line) (ls : List Line) (cs : Children) :
    runAll step cs (l :: ls) = (update l.name l.act cs).bind fun cs => runAll step cs ls := by
  rw [runAll_cons, step, apply_eq_update]

variable {ls ls' : List Line} {cs cs' : Children}

theorem named_cons (m : String) (l : Line) (ls : List Line) :
    named m (l :: ls) = if l.name = m then l :: named m ls else named m ls := by
  simp [named, List.filter_cons]

theorem named_append (m : String) (ls ls' : List Line) :
    named m (ls ++ ls') = named m ls ++ named m ls' := List.filter_append _ _

/-- **What stands under a name is what the lines of that name make of it.** -/
theorem lookup_run (read : runAll step cs ls = some cs') (m : String) :
    runOn act (cs.lookup m) (named m ls) = some (cs'.lookup m) := by
  induction ls generalizing cs with
  | nil =>
      cases read
      rfl
  | cons l ls ih =>
      rw [runAll_step_cons] at read
      obtain ⟨cs₁, first, rest⟩ := Option.bind_eq_some_iff.mp read
      have here := ih rest
      rw [lookup_update first] at here
      rw [named_cons]
      by_cases same : l.name = m
      · rw [if_pos same, runOn_cons]
        rw [if_pos same.symm, same] at here
        have made : (l.act (cs.lookup m)).isSome = true := by
          rw [← same, ← isSome_update, first]
          rfl
        obtain ⟨n, act⟩ := Option.isSome_iff_exists.mp made
        rw [act] at here ⊢
        exact here
      · rw [if_neg same]
        rw [if_neg (Ne.symm same)] at here
        exact here

/-- **Lines agree if those of each name do.** -/
theorem isSome_run (each : ∀ m, (runOn act (cs.lookup m) (named m ls)).isSome) :
    (runAll step cs ls).isSome := by
  induction ls generalizing cs with
  | nil => rfl
  | cons l ls ih =>
      have own := each l.name
      rw [named_cons, if_pos rfl, runOn_cons] at own
      obtain ⟨n', all⟩ := Option.isSome_iff_exists.mp own
      obtain ⟨n, act, rest⟩ := Option.bind_eq_some_iff.mp all
      have made : (update l.name l.act cs).isSome = true := by
        rw [isSome_update, act]
        rfl
      obtain ⟨cs₁, first⟩ := Option.isSome_iff_exists.mp made
      rw [runAll_step_cons, first]
      refine ih fun m => ?_
      rw [lookup_update first]
      by_cases same : m = l.name
      · rw [if_pos same, act, same, rest]
        rfl
      · have others := each m
        rw [named_cons, if_neg (Ne.symm same)] at others
        rw [if_neg same]
        exact others

/-- Lines do not make a name stand twice. -/
theorem nodup_run (read : runAll step cs ls = some cs') (once : (names cs).Nodup) :
    (names cs').Nodup := by
  induction ls generalizing cs with
  | nil =>
      cases read
      exact once
  | cons l ls ih =>
      rw [runAll_step_cons] at read
      obtain ⟨cs₁, first, rest⟩ := Option.bind_eq_some_iff.mp read
      exact ih rest (nodup_update first once)

/-! ## Values and arrays of tables -/

/-- Whether a line puts a value right under its name. -/
def IsLeaf (l : Line) : Prop := l.above = [] ∧ ∃ name value, l.deed = .puts [name] value

/-- A value that is written out admits nothing more. -/
theorem act_leaf (l : Line) (v : Value) : l.act (some (.leaf v)) = none := by
  obtain ⟨above, deed⟩ := l
  cases above with
  | cons first above => rfl
  | nil =>
      cases deed with
      | opens array name => cases array <;> rfl
      | puts names value =>
          match names with
          | [] => rfl
          | [name] => exact Option.bind_fun_none _
          | name :: next :: path => rfl

/-- A value is put only where nothing stands. -/
theorem act_of_isLeaf {l : Line} (leaf : l.IsLeaf) {n : Option Node} {n' : Node}
    (act : l.act n = some n') :
    n = none ∧ ∃ name v, l = ⟨[], .puts [name] (some v)⟩ ∧ n' = .leaf v := by
  obtain ⟨above, deed⟩ := l
  obtain ⟨rfl, name, value, rfl⟩ := leaf
  obtain ⟨v, rfl, put⟩ := Option.bind_eq_some_iff.mp act
  cases n with
  | none =>
      cases put
      exact ⟨rfl, name, v, rfl, rfl⟩
  | some n => cases put

/-- What stands under a name after one line at least is something. -/
theorem runOn_act_some {n : Node} {n' : Option Node} (read : runOn act (some n) ls = some n') :
    ∃ n, n' = some n := by
  induction ls generalizing n with
  | nil => exact ⟨n, (Option.some.inj read).symm⟩
  | cons l ls ih =>
      rw [runOn_cons] at read
      obtain ⟨n₁, -, rest⟩ := Option.bind_eq_some_iff.mp read
      exact ih rest

/-- **Where a line puts a value under a name, no other line is about that name.** -/
theorem leaf_alone {l : Line} {n : Option Node} (read : runOn act none ls = some n)
    (member : l ∈ ls) (leaf : l.IsLeaf) :
    ls = [l] ∧ ∃ name v, l = ⟨[], .puts [name] (some v)⟩ ∧ n = some (.leaf v) := by
  obtain ⟨before, after, rfl⟩ := List.append_of_mem member
  rw [runOn_append] at read
  obtain ⟨n₁, first, rest⟩ := Option.bind_eq_some_iff.mp read
  rw [runOn_cons] at rest
  obtain ⟨n₂, act, last⟩ := Option.bind_eq_some_iff.mp rest
  obtain ⟨rfl, name, v, same, rfl⟩ := act_of_isLeaf leaf act
  -- a line before it would leave something where it wants nothing to stand
  have nothingBefore : before = [] := by
    cases before with
    | nil => rfl
    | cons l' before =>
        rw [runOn_cons] at first
        obtain ⟨n', -, later⟩ := Option.bind_eq_some_iff.mp first
        obtain ⟨n, something⟩ := runOn_act_some later
        cases something
  have nothingAfter : after = [] := by
    cases after with
    | nil => rfl
    | cons l' after =>
        rw [runOn_cons, act_leaf] at last
        cases last
  subst nothingBefore nothingAfter
  exact ⟨rfl, name, v, same, (Option.some.inj last).symm⟩

/-- An array of tables stays one. -/
theorem act_tables {l : Line} {es : List Children} {n : Node}
    (act : l.act (some (.tables es)) = some n) : ∃ es', n = .tables es' := by
  obtain ⟨above, deed⟩ := l
  cases above with
  | cons first above =>
      cases es with
      | nil => cases act
      | cons e es =>
          obtain ⟨e', -, rfl⟩ := Option.map_eq_some_iff.mp act
          exact ⟨_, rfl⟩
  | nil =>
      cases deed with
      | opens array name =>
          cases array with
          | true =>
              cases act
              exact ⟨_, rfl⟩
          | false => cases act
      | puts names value =>
          match names with
          | [] => cases act
          | [name] =>
              obtain ⟨v, -, put⟩ := Option.bind_eq_some_iff.mp act
              cases put
          | name :: next :: path =>
              cases es with
              | nil => cases act
              | cons e es =>
                  cases path with
                  | nil => cases act
                  | cons other path =>
                      obtain ⟨e', -, rfl⟩ := Option.map_eq_some_iff.mp act
                      exact ⟨_, rfl⟩

/-- Whether a line opens another table of an array of tables right under its name. -/
def IsElement (l : Line) : Prop := l.above = [] ∧ ∃ name, l.deed = .opens true name

/-- **Where a line opens a table of an array under a name, an array stands there.** -/
theorem tables_of_isElement {l : Line} {n n' : Option Node} (read : runOn act n ls = some n')
    (member : l ∈ ls) (element : l.IsElement) : ∃ es, n' = some (.tables es) := by
  obtain ⟨before, after, rfl⟩ := List.append_of_mem member
  rw [runOn_append] at read
  obtain ⟨n₁, -, rest⟩ := Option.bind_eq_some_iff.mp read
  rw [runOn_cons] at rest
  obtain ⟨n₂, act, last⟩ := Option.bind_eq_some_iff.mp rest
  have opened : ∃ es, n₂ = .tables es := by
    obtain ⟨above, deed⟩ := l
    obtain ⟨rfl, name, rfl⟩ := element
    change openedElement n₁ = some n₂ at act
    unfold openedElement at act
    split at act <;> cases act <;> exact ⟨_, rfl⟩
  clear act rest read member
  induction after generalizing n₂ with
  | nil =>
      obtain ⟨es, rfl⟩ := opened
      exact ⟨es, (Option.some.inj last).symm⟩
  | cons l' after ih =>
      rw [runOn_cons] at last
      obtain ⟨n₃, act, later⟩ := Option.bind_eq_some_iff.mp last
      obtain ⟨es, rfl⟩ := opened
      exact ih n₃ later (act_tables act)

/-! ## Tables -/

/-- Whether a line leaves a table under its name, if any: it opens it, or it is about something in
it. -/
def IsTabular : Line → Prop
  | ⟨_ :: _, _⟩ => True
  | ⟨[], .opens array _⟩ => array = false
  | ⟨[], .puts names _⟩ => 2 ≤ names.length

/-- What a line says about the table under its name, in that table. -/
def below? : Line → Option Line
  | ⟨_ :: above, deed⟩ => some ⟨above, deed⟩
  | ⟨[], .puts (_ :: next :: path) value⟩ => some ⟨[], .puts (next :: path) value⟩
  | _ => none

/-- How the table came to be that stands under the name of a line, after the line. -/
def touch : Line → Option Origin → Option Origin
  | ⟨_ :: _, _⟩, o => some (o.getD .implied)
  | ⟨[], .opens _ _⟩, none => some .header
  | ⟨[], .opens _ _⟩, some .implied => some .header
  | ⟨[], .opens _ _⟩, _ => none
  | ⟨[], .puts _ _⟩, none => some .dotted
  | ⟨[], .puts _ _⟩, some .dotted => some .dotted
  | ⟨[], .puts names _⟩, some .implied => if names.length = 2 then none else some .implied
  | ⟨[], .puts _ _⟩, some .header => none

/-- Reads a line in the table under its name. -/
def applyBelow (l : Line) (cs : Children) : Option Children :=
  match l.below? with
  | some b => b.apply cs
  | none => some cs

/-- The table that stands under a name, if there is one. -/
def tableAt (o : Option Origin) (cs : Children) : Option Node := o.map fun o => .table o cs

/-- **A line of a table** checks how the table came to be and changes what is in it. -/
theorem act_table {l : Line} (tabular : l.IsTabular) {o : Option Origin} {cs : Children}
    (empty : o = none → cs = []) :
    l.act (tableAt o cs) = (l.touch o).bind fun o' => (l.applyBelow cs).map (.table o') := by
  obtain ⟨above, deed⟩ := l
  cases above with
  | cons first above =>
      cases o with
      | none =>
          rw [empty rfl]
          rfl
      | some o => rfl
  | nil =>
      cases deed with
      | opens array name =>
          have table : array = false := tabular
          subst table
          cases o with
          | none =>
              rw [empty rfl]
              rfl
          | some o => cases o <;> rfl
      | puts names value =>
          match names, tabular with
          | name :: next :: path, _ =>
              cases o with
              | none =>
                  rw [empty rfl]
                  rfl
              | some o =>
                  cases o with
                  | dotted => rfl
                  | header => rfl
                  | implied => cases path <;> rfl

/-- The lines in the table under a name. -/
def inside (ls : List Line) : List Line := ls.filterMap below?

theorem run_inside_cons (l : Line) (ls : List Line) (cs : Children) :
    runAll step cs (inside (l :: ls)) =
      (l.applyBelow cs).bind fun cs => runAll step cs (inside ls) := by
  unfold inside applyBelow
  cases below : l.below? with
  | none =>
      rw [List.filterMap_cons_none below]
      rfl
  | some b =>
      rw [List.filterMap_cons_some below]
      rfl

/-- **The lines of a table** check how the table came to be and are read in it. -/
theorem runOn_act_table (tabular : ∀ l ∈ ls, l.IsTabular) {o : Option Origin} {cs : Children}
    (empty : o = none → cs = []) :
    runOn act (tableAt o cs) ls =
      (runOn touch o ls).bind fun o' => (runAll step cs (inside ls)).map (tableAt o') := by
  induction ls generalizing o cs with
  | nil => rfl
  | cons l ls ih =>
      rw [runOn_cons, act_table (tabular l List.mem_cons_self) empty, runOn_cons, run_inside_cons]
      cases l.touch o with
      | none => rfl
      | some o' =>
          cases l.applyBelow cs with
          | none =>
              simp
          | some cs' =>
              have made : some o' = none → cs' = [] := nofun
              exact ih (fun l' member => tabular l' (List.mem_cons_of_mem _ member)) made

/-! ## How a table may come to be -/

/-- Whether a line opens the table under its name. -/
def isHead : Line → Bool
  | ⟨[], .opens false _⟩ => true
  | _ => false

/-- Whether a line is about a table below the one under its name, or in a table that a header has
opened. -/
def IsInside (l : Line) : Prop := l.above ≠ []

/-- Whether a line extends the table under its name with a dotted key. -/
def IsDotted (l : Line) : Prop := l.above = [] ∧ ∃ names value, l.deed = .puts names value

theorem isTabular_of_isHead {l : Line} (head : l.isHead = true) : l.IsTabular := by
  unfold isHead at head
  split at head
  · rfl
  · cases head

theorem isTabular_of_isInside {l : Line} (inside : l.IsInside) : l.IsTabular := by
  obtain ⟨above, deed⟩ := l
  cases above with
  | nil => exact absurd rfl inside
  | cons first above => trivial

theorem touch_inside {l : Line} (inside : l.IsInside) (o : Option Origin) :
    l.touch o = some (o.getD .implied) := by
  obtain ⟨above, deed⟩ := l
  cases above with
  | nil => exact absurd rfl inside
  | cons first above => rfl

theorem touch_dotted {l : Line} (dotted : l.IsDotted) :
    l.touch none = some .dotted ∧ l.touch (some .dotted) = some .dotted := by
  obtain ⟨above, deed⟩ := l
  obtain ⟨rfl, names, value, rfl⟩ := dotted
  exact ⟨rfl, rfl⟩

theorem touch_head {l : Line} (head : l.isHead = true) {o : Option Origin} {o' : Origin}
    (touch : l.touch o = some o') : o' = .header := by
  unfold isHead at head
  split at head
  · match o, touch with
    | none, touch => exact (Option.some.inj touch).symm
    | some .implied, touch => exact (Option.some.inj touch).symm
  · cases head

theorem touch_head_of_implied {l : Line} (head : l.isHead = true) {o : Option Origin}
    (implied : o = none ∨ o = some .implied) : l.touch o = some .header := by
  unfold isHead at head
  split at head
  · rcases implied with rfl | rfl <;> rfl
  · cases head

/-- A table that has come to be by a header or by dotted keys is not opened again. -/
theorem touch_closed {l : Line} {o o' : Origin} (closed : o ≠ .implied)
    (touch : l.touch (some o) = some o') : o' = o ∧ l.isHead = false := by
  obtain ⟨above, deed⟩ := l
  cases above with
  | cons first above =>
      cases touch
      exact ⟨rfl, rfl⟩
  | nil =>
      cases deed with
      | opens array name =>
          cases o with
          | implied => exact absurd rfl closed
          | header => cases touch
          | dotted => cases touch
      | puts names value =>
          cases o with
          | implied => exact absurd rfl closed
          | header => cases touch
          | dotted =>
              cases touch
              exact ⟨rfl, rfl⟩

theorem runOn_touch_closed {o : Origin} {o' : Option Origin} (closed : o ≠ .implied)
    (touch : runOn touch (some o) ls = some o') : ∀ l ∈ ls, l.isHead = false := by
  induction ls with
  | nil => nofun
  | cons l ls ih =>
      rw [runOn_cons] at touch
      obtain ⟨o₁, first, rest⟩ := Option.bind_eq_some_iff.mp touch
      obtain ⟨rfl, noHead⟩ := touch_closed closed first
      exact List.forall_mem_cons.mpr ⟨noHead, ih rest⟩

theorem runOn_touch_some {o : Origin} {o' : Option Origin}
    (touch : runOn touch (some o) ls = some o') : ∃ o, o' = some o := by
  induction ls generalizing o with
  | nil => exact ⟨o, (Option.some.inj touch).symm⟩
  | cons l ls ih =>
      rw [runOn_cons] at touch
      obtain ⟨o₁, -, rest⟩ := Option.bind_eq_some_iff.mp touch
      exact ih rest

/-- After one line at least a table has come to be. -/
theorem exists_touched {o o' : Option Origin} (touch : runOn touch o ls = some o')
    (lines : ls ≠ []) : ∃ o, o' = some o := by
  obtain ⟨l, rest, rfl⟩ := List.exists_cons_of_ne_nil lines
  rw [runOn_cons] at touch
  obtain ⟨o₁, -, later⟩ := Option.bind_eq_some_iff.mp touch
  exact runOn_touch_some later

theorem isSome_runOn_touch_inside (inside : ∀ l ∈ ls, l.IsInside) (o : Option Origin) :
    (runOn touch o ls).isSome := by
  induction ls generalizing o with
  | nil => rfl
  | cons l ls ih =>
      rw [runOn_cons, touch_inside (inside l List.mem_cons_self)]
      exact ih (fun l' member => inside l' (List.mem_cons_of_mem _ member)) _

theorem runOn_touch_dotted (dotted : ∀ l ∈ ls, l.IsDotted) :
    runOn touch (some .dotted) ls = some (some .dotted) := by
  induction ls with
  | nil => rfl
  | cons l ls ih =>
      rw [runOn_cons, (touch_dotted (dotted l List.mem_cons_self)).2]
      exact ih fun l' member => dotted l' (List.mem_cons_of_mem _ member)

/-- Dotted keys make a table. -/
theorem runOn_touch_dotted_none (dotted : ∀ l ∈ ls, l.IsDotted) (lines : ls ≠ []) :
    runOn touch none ls = some (some .dotted) := by
  obtain ⟨l, rest, rfl⟩ := List.exists_cons_of_ne_nil lines
  rw [runOn_cons, (touch_dotted (dotted l List.mem_cons_self)).1]
  exact runOn_touch_dotted fun l' member => dotted l' (List.mem_cons_of_mem _ member)

/-- A table is opened once at most. -/
theorem heads_le_one {o o' : Option Origin} (touch : runOn touch o ls = some o') :
    (ls.filter isHead).length ≤ 1 := by
  induction ls generalizing o with
  | nil => exact Nat.zero_le 1
  | cons l ls ih =>
      rw [runOn_cons] at touch
      obtain ⟨o₁, first, rest⟩ := Option.bind_eq_some_iff.mp touch
      cases head : l.isHead with
      | false =>
          rw [List.filter_cons_of_neg (by simp [head])]
          exact ih rest
      | true =>
          have opened : o₁ = .header := touch_head head first
          have noOther : ls.filter isHead = [] :=
            List.filter_eq_nil_iff.mpr fun l' member => by
              simp [runOn_touch_closed (opened ▸ by decide) rest l' member]
          rw [List.filter_cons_of_pos head, noOther]
          exact Nat.le_refl 1

/-- A header may open a table that only lines below it have made. -/
theorem isSome_runOn_touch_heads (each : ∀ l ∈ ls, l.isHead = true ∨ l.IsInside)
    (once : (ls.filter isHead).length ≤ 1) {o : Option Origin}
    (implied : o = none ∨ o = some .implied) : (runOn touch o ls).isSome := by
  induction ls generalizing o with
  | nil => rfl
  | cons l ls ih =>
      have rest := fun l' member => each l' (List.mem_cons_of_mem l member)
      rw [runOn_cons]
      cases head : l.isHead with
      | false =>
          have inside : l.IsInside := (each l List.mem_cons_self).resolve_left (by simp [head])
          rw [List.filter_cons_of_neg (by simp [head])] at once
          rw [touch_inside inside]
          have same : o.getD .implied = .implied := by
            rcases implied with rfl | rfl <;> rfl
          rw [same]
          exact ih rest once (.inr rfl)
      | true =>
          rw [List.filter_cons_of_pos head, List.length_cons] at once
          have noOther : ls.filter isHead = [] := List.length_eq_zero_iff.mp (by omega)
          rw [touch_head_of_implied head implied]
          refine isSome_runOn_touch_inside (fun l' member => ?_) _
          exact (rest l' member).resolve_left (List.filter_eq_nil_iff.mp noOther l' member)

end Line

/-! ## Lines in the place of others -/

/-- Whether two lists have the same under each name but one, and the second has `a` under that. -/
structure Sets {α : Type} (name : String) (a : α) (l l' : List (String × α)) : Prop where
  own : l'.lookup name = some a
  others : ∀ m, m ≠ name → l'.lookup m = l.lookup m

namespace Line

/-- Whether lines are others with one that puts a value in the place of all about a name. -/
structure Assigns (key : String) (v : Value) (ls ls' : List Line) : Prop where
  own : named key ls' = [⟨[], .puts [key] (some v)⟩]
  others : ∀ m, m ≠ key → named m ls' = named m ls

variable {ls ls' : List Line} {cs : Children} {t key : String} {v : Value}

/-- Lines that agree for each name but one. -/
theorem sets_run {n : Node} (read : runAll step [] ls = some cs)
    (own : runOn act none (named key ls') = some (some n))
    (others : ∀ m, m ≠ key → named m ls' = named m ls) :
    ∃ cs', runAll step [] ls' = some cs' ∧ (names cs').Nodup ∧ Sets key n cs cs' := by
  -- the lines agree name by name: at the one as assumed, at the others as before
  have agree : (runAll step [] ls').isSome := by
    refine isSome_run fun m => ?_
    change (runOn act none (named m ls')).isSome = true
    by_cases same : m = key
    · rw [same, own]
      rfl
    · have old : runOn act none (named m ls) = some (cs.lookup m) := lookup_run read m
      rw [others m same, old]
      rfl
  obtain ⟨cs', read'⟩ := Option.isSome_iff_exists.mp agree
  refine ⟨cs', read', nodup_run read' List.nodup_nil, ?_, fun m other => ?_⟩
  · have new := lookup_run read' key
    exact (Option.some.inj (own.symm.trans new)).symm
  · have new := lookup_run read' m
    rw [others m other] at new
    exact (Option.some.inj ((lookup_run read m).symm.trans new)).symm

/-- **One key of a table**: lines that assign it are read, and nothing else changes. -/
theorem Assigns.run (assigns : Assigns key v ls ls') (read : runAll step [] ls = some cs) :
    ∃ cs', runAll Line.step [] ls' = some cs' ∧ (names cs').Nodup ∧ Sets key (.leaf v) cs cs' := by
  refine sets_run read ?_ assigns.others
  rw [assigns.own]
  rfl

/-- Lines that leave a table under a name are read in it. -/
theorem exists_run_inside (read : runAll step [] ls = some cs)
    (tabular : ∀ l ∈ named t ls, l.IsTabular) :
    ∃ o kids, runAll step [] (inside (named t ls)) = some kids ∧ cs.lookup t = tableAt o kids ∧
      (o = none → kids = []) := by
  have all : runOn act (tableAt none []) (named t ls) = some (cs.lookup t) := lookup_run read t
  rw [runOn_act_table tabular fun _ => rfl] at all
  obtain ⟨o, came, rest⟩ := Option.bind_eq_some_iff.mp all
  obtain ⟨kids, readKids, stands⟩ := Option.map_eq_some_iff.mp rest
  refine ⟨o, kids, readKids, stands.symm, ?_⟩
  rintro rfl
  -- only where there is no line at all does no table come to be
  by_cases lines : named t ls = []
  · rw [lines] at readKids
    exact (Option.some.inj readKids).symm
  · obtain ⟨o, something⟩ := exists_touched came lines
    cases something

/-- **One key of a table in a table**: where all lines about the outer one leave it a table. -/
theorem run_within (read : runAll step [] ls = some cs) (tabular : ∀ l ∈ named t ls, l.IsTabular)
    (tabular' : ∀ l ∈ named t ls', l.IsTabular) (touch : (runOn touch none (named t ls')).isSome)
    (others : ∀ m, m ≠ t → named m ls' = named m ls)
    (assigns : Assigns key v (inside (named t ls)) (inside (named t ls'))) :
    ∃ cs' o kids o' kids', runAll step [] ls' = some cs' ∧ cs.lookup t = tableAt o kids ∧
      (o = none → kids = []) ∧ (names cs').Nodup ∧ Sets t (.table o' kids') cs cs' ∧
      (names kids').Nodup ∧ Sets key (.leaf v) kids kids' := by
  obtain ⟨o, kids, readKids, old, empty⟩ := exists_run_inside read tabular
  obtain ⟨kids', readKids', once, sets⟩ := assigns.run readKids
  obtain ⟨o', came⟩ := Option.isSome_iff_exists.mp touch
  have lines : named t ls' ≠ [] := fun nothing => by
    have own := assigns.own
    rw [nothing] at own
    cases own
  obtain ⟨o', rfl⟩ := exists_touched came lines
  have new : runOn act (tableAt none []) (named t ls') = some (some (.table o' kids')) := by
    rw [runOn_act_table tabular' fun _ => rfl, came, Option.bind_some, readKids']
    rfl
  obtain ⟨cs', read', onceOuter, setsOuter⟩ := sets_run read new others
  exact ⟨cs', o, kids, o', kids', read', old, empty, onceOuter, setsOuter, once, sets⟩

/-- **How the table came to be that the lines of a name make.** -/
theorem isSome_runOn_touch (read : runAll step [] ls = some cs)
    (tabular : ∀ l ∈ named t ls, l.IsTabular) : (runOn touch none (named t ls)).isSome := by
  have all : runOn act (tableAt none []) (named t ls) = some (cs.lookup t) := lookup_run read t
  rw [runOn_act_table tabular fun _ => rfl] at all
  obtain ⟨o, came, -⟩ := Option.bind_eq_some_iff.mp all
  rw [came]
  rfl

/-! ## Lines by their paths -/

/-- Whether a line is about what is at a path or below it. -/
def isAbout (path : List String) (l : Line) : Bool := path.isPrefixOf l.path

/-- Whether a line neither opens a table nor is about one key of it or what is below that. -/
def isApart (t key : String) (l : Line) : Bool :=
  !isAbout [t, key] l && !(l.isHead && l.name == t)

/-- Whether one line takes the place of all about a key of a table, and all others but the header of
the table stay. -/
structure Edits (t key : String) (v : Value) (ls ls' : List Line) : Prop where
  kept : ls'.filter (isApart t key) = ls.filter (isApart t key)
  put : ∃ l, ls'.filter (isAbout [t, key]) = [l] ∧ l.below? = some ⟨[], .puts [key] (some v)⟩
  complete : ∀ l ∈ ls', l.deed.path ≠ []

/-- The path of a line in the table under its name. -/
theorem path_of_below? {l b : Line} (below : l.below? = some b) : l.path = l.name :: b.path := by
  unfold below? at below
  split at below <;> cases below <;> rfl

/-- A line about a key of a table is a line of the table, and in it one of the key. -/
theorem of_isAbout {l : Line} (about : isAbout [t, key] l = true) :
    l.name = t ∧ ∃ b, l.below? = some b ∧ b.name = key := by
  obtain ⟨rest, path⟩ := List.isPrefixOf_iff_prefix.mp about
  have name : l.name = t := by
    rw [Line.name, ← path]
    rfl
  have below : ∃ b, l.below? = some b := by
    obtain ⟨above, deed⟩ := l
    cases above with
    | cons first above => exact ⟨_, rfl⟩
    | nil =>
        cases deed with
        | opens array name => cases path
        | puts names value =>
            cases path
            exact ⟨_, rfl⟩
  obtain ⟨b, below⟩ := below
  refine ⟨name, b, below, ?_⟩
  rw [path_of_below? below] at path
  obtain ⟨-, inner⟩ := List.cons.inj path
  rw [Line.name, ← inner]
  rfl

theorem isAbout_of_below? {l b : Line} (below : l.below? = some b) (complete : l.deed.path ≠ [])
    (table : l.name = t) (name : b.name = key) : isAbout [t, key] l = true := by
  have some_ : b.path ≠ [] := by
    unfold below? at below
    split at below <;> cases below
    · exact fun nothing => complete (List.append_eq_nil_iff.mp nothing).2
    · exact List.cons_ne_nil _ _
  obtain ⟨first, rest, path⟩ := List.exists_cons_of_ne_nil some_
  have same : first = key := by
    rw [← name, Line.name, path]
    rfl
  refine List.isPrefixOf_iff_prefix.mpr ⟨rest, ?_⟩
  rw [path_of_below? below, table, path, same]
  rfl

theorem isApart_of_name {l : Line} (other : l.name ≠ t) : isApart t key l = true := by
  have about : isAbout [t, key] l = false := by
    rw [← Bool.not_eq_true]
    exact fun about => other (of_isAbout about).1
  simp [isApart, about, other]

theorem isApart_of_below? {l b : Line} (below : l.below? = some b) (other : b.name ≠ key) :
    isApart t key l = true := by
  have about : isAbout [t, key] l = false := by
    rw [← Bool.not_eq_true]
    intro about
    obtain ⟨-, b', below', name⟩ := of_isAbout about
    exact other (Option.some.inj (below.symm.trans below') ▸ name)
  have noHead : l.isHead = false := by
    unfold below? at below
    split at below
    · rfl
    · rfl
    · cases below
  simp [isApart, about, noHead]

/-- The lines of one name in a table, and the same of those lines only that `p` admits. -/
theorem named_inside (t key : String) (p : Line → Bool) (ls : List Line)
    (same : ∀ l ∈ ls, l.name = t → ∀ b, l.below? = some b → b.name = key → p l = true) :
    named key (inside (named t (ls.filter p))) = named key (inside (named t ls)) := by
  simp only [named, inside, List.filterMap_filter, List.filter_filterMap]
  refine List.filterMap_congr fun l member => ?_
  by_cases admitted : p l = true
  · rw [if_pos admitted]
  · rw [if_neg admitted, Option.filter_none]
    by_cases table : l.name = t
    · rw [if_pos (beq_iff_eq.mpr table)]
      cases below : l.below? with
      | none => rfl
      | some b =>
          have other : b.name ≠ key := fun name => admitted (same l member table b below name)
          simp [Option.filter, other]
    · rw [if_neg (by simpa using table)]
      rfl

/-- The lines of other tables stay. -/
theorem Edits.others (edits : Edits t key v ls ls') {m : String} (other : m ≠ t) :
    named m ls' = named m ls := by
  have kept (ls : List Line) : named m (ls.filter (isApart t key)) = named m ls := by
    rw [named, named, List.filter_filter]
    refine List.filter_congr fun l _ => ?_
    by_cases same : l.name = m
    · rw [isApart_of_name (same ▸ other), Bool.and_true]
    · simp [same]
  rw [← kept ls', edits.kept, kept ls]

/-- In the table the lines of all keys stay but those of the one. -/
theorem Edits.assigns (edits : Edits t key v ls ls') :
    Assigns key v (inside (named t ls)) (inside (named t ls')) where
  own := by
    obtain ⟨l, only, below⟩ := edits.put
    have about : l ∈ ls'.filter (isAbout [t, key]) := only ▸ List.mem_singleton_self l
    obtain ⟨-, about⟩ := List.mem_filter.mp about
    rw [← named_inside t key (isAbout [t, key]) ls' fun l member table b below name =>
      isAbout_of_below? below (edits.complete l member) table name, only]
    have table : (l.name == t) = true := beq_iff_eq.mpr (of_isAbout about).1
    have name : (name ⟨[], .puts [key] (some v)⟩ == key) = true := beq_self_eq_true key
    rw [named, named, List.filter_singleton, table, cond_true, inside,
      List.filterMap_cons_some below, List.filterMap_nil, List.filter_singleton, name, cond_true]
  others m other := by
    have kept (ls : List Line) : named m (inside (named t (ls.filter (isApart t key)))) =
        named m (inside (named t ls)) :=
      named_inside t m (isApart t key) ls fun l _ _ b below name =>
        isApart_of_below? below (name ▸ other)
    rw [← kept ls', edits.kept, kept ls]

/-- A list of one element at most is that of any element in it. -/
theorem eq_singleton {α : Type} {l : List α} {x : α} (member : x ∈ l) (short : l.length ≤ 1) :
    l = [x] := by
  match l, member, short with
  | [y], member, _ => rw [List.mem_singleton.mp member]
  | _ :: _ :: _, _, short => exact absurd short (by simp)

/-- **Where a line puts a value at a key of a table, no other line is about that key.** -/
theorem about_alone (read : runAll step [] ls = some cs) (tabular : ∀ l ∈ named t ls, l.IsTabular)
    (complete : ∀ l ∈ ls, l.deed.path ≠ []) {l b : Line} (member : l ∈ ls)
    (about : isAbout [t, key] l = true) (below : l.below? = some b) (leaf : b.IsLeaf) :
    ls.filter (isAbout [t, key]) = [l] := by
  obtain ⟨-, kids, readKids, -, -⟩ := exists_run_inside read tabular
  have stands : runOn act none (named key (inside (named t ls))) = some (kids.lookup key) :=
    lookup_run readKids key
  rw [← named_inside t key (isAbout [t, key]) ls fun l member table b below name =>
    isAbout_of_below? below (complete l member) table name] at stands
  have own : ls.filter (isAbout [t, key]) = named t (ls.filter (isAbout [t, key])) := by
    refine (List.filter_eq_self.mpr fun l member => ?_).symm
    exact beq_iff_eq.mpr (of_isAbout (List.mem_filter.mp member).2).1
  have inner : named key (inside (ls.filter (isAbout [t, key]))) =
      inside (ls.filter (isAbout [t, key])) := by
    refine List.filter_eq_self.mpr fun b member => ?_
    obtain ⟨l, inside, below⟩ := List.mem_filterMap.mp member
    obtain ⟨-, b', below', name⟩ := of_isAbout (List.mem_filter.mp inside).2
    exact beq_iff_eq.mpr (Option.some.inj (below.symm.trans below') ▸ name)
  have here : l ∈ ls.filter (isAbout [t, key]) := List.mem_filter.mpr ⟨member, about⟩
  have inHere : b ∈ inside (ls.filter (isAbout [t, key])) :=
    List.mem_filterMap.mpr ⟨l, here, below⟩
  rw [← own, inner] at stands
  have alone := (leaf_alone stands inHere leaf).1
  have all : (inside (ls.filter (isAbout [t, key]))).length =
      (ls.filter (isAbout [t, key])).length := by
    refine List.filterMap_length_eq_length.mpr fun l member => ?_
    obtain ⟨-, b, below, -⟩ := of_isAbout (List.mem_filter.mp member).2
    rw [below]
    rfl
  rw [alone] at all
  exact eq_singleton here (Nat.le_of_eq all.symm)

/-- Around the only line of a name there are none of it. -/
theorem named_around {before after : List Line} {x : Line}
    (only : named t (before ++ x :: after) = [x]) (name : x.name = t) :
    named t before = [] ∧ named t after = [] := by
  rw [named_append, named_cons, if_pos name] at only
  have short := congrArg List.length only
  rw [List.length_append, List.length_cons, List.length_singleton] at short
  constructor
  · exact List.length_eq_zero_iff.mp (by omega)
  · exact List.length_eq_zero_iff.mp (by omega)

/-- A line in the place of another one of the same name. -/
theorem named_replace {before after : List Line} {x y : Line} (nameX : x.name = t)
    (nameY : y.name = t) {m : String} (other : m ≠ t) :
    named m (before ++ y :: after) = named m (before ++ x :: after) := by
  have apart {z : Line} (name : z.name = t) : z.name ≠ m := fun same => other (same.symm.trans name)
  rw [named_append, named_append, named_cons, named_cons, if_neg (apart nameX),
    if_neg (apart nameY)]

end Line

end Gatekeeper.Toml
