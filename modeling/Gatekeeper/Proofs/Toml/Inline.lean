import Gatekeeper.Proofs.Toml.Key

set_option autoImplicit false

/-!
# Fields of inline tables

How a field is read does not depend on the inline table that it stands in, as long as that table is
not part of another value (`field_reading`): not on the fields before it, nor on the key of the
table. So a field that has been read once is read again in any other table (`Field.Good`), and an
inline table that is made of such fields is read back from its text (`Inline.Good.read`).
-/

namespace Gatekeeper.Toml

/-! ## Effects in a table -/

namespace ValueState

variable {state state' : ValueState} {t : Token} {e : Effect}

/-- A state is ready for a token as it is, or because a word is complete. -/
theorem ready?_cases (ready : state.ready? t = some state') :
    state' = state ∨ ∃ p, state' = .after p := by
  unfold ready? at ready
  split at ready
  · exact .inl (Option.some.inj ready).symm
  · exact .inl (Option.some.inj ready).symm
  · split at ready
    · exact .inl (Option.some.inj ready).symm
    · obtain ⟨p, -, shape⟩ := Option.map_eq_some_iff.mp ready
      exact .inr ⟨p, shape.symm⟩
  · exact .inl (Option.some.inj ready).symm
  · obtain ⟨p, -, shape⟩ := Option.map_eq_some_iff.mp ready
    exact .inr ⟨p, shape.symm⟩
  · exact .inl (Option.some.inj ready).symm

/-- What the first token of a value does. -/
theorem start_cases {depth : Nat} {blanks : List Char} (step : start depth blanks t = some e) :
    (∃ text, e = .stay (.word blanks text)) ∨
      (∃ text s, e = .place ⟨blanks.reverse, .plain text (.string s), []⟩) ∨
      (∃ text, e = .push (.array blanks text []) (.before [])) ∨
      e = .push (.table blanks [] []) (.key {}) := by
  unfold start at step
  split at step
  · cases step
    exact .inl ⟨_, rfl⟩
  · cases step
    exact .inl ⟨_, rfl⟩
  · cases step
    exact .inr (.inl ⟨_, _, rfl⟩)
  · split at step
    · cases step
    split at step
    · cases step
      exact .inr (.inr (.inl ⟨_, rfl⟩))
    · split at step <;> cases step
      exact .inr (.inr (.inr rfl))
  · cases step

/-- Whether an effect leaves what is open open, and is not in front of a field after it. -/
def Begins : Effect → Prop
  | .stay state => ∀ k, state ≠ .key k
  | .push _ _ => True
  | .change _ _ => False
  | .place _ => True
  | .pop _ => False

theorem begins_start {depth : Nat} {blanks : List Char} (step : start depth blanks t = some e) :
    Begins e := by
  rcases start_cases step with ⟨_, rfl⟩ | ⟨_, _, rfl⟩ | ⟨_, rfl⟩ | rfl
  · exact fun k same => nomatch same
  · trivial
  · trivial
  · trivial

theorem begins_stepBefore {depth : Nat} {blanks : List Char}
    (step : stepBefore none depth blanks t = some e) : Begins e := by
  rcases stepBefore_cases step with ⟨_, _, _, top, _, _⟩ | ⟨_, rfl⟩ | started
  · cases top
  · exact fun k same => nomatch same
  · exact begins_start started

theorem begins_stepWord {blanks text : List Char} (step : stepWord blanks text t = some e) :
    Begins e := by
  unfold stepWord at step
  split at step <;> cases step <;> exact fun k same => nomatch same

theorem begins_stepDate {blanks text : List Char} (step : stepDate blanks text t = some e) :
    Begins e := by
  unfold stepDate at step
  split at step <;> cases step
  exact fun k same => nomatch same

/-- What comes after a value and is no part of it belongs to it. -/
theorem stepAfter_of_isFiller {top : Option Frame} {p : Placed} (filler : t.isFiller = true) :
    stepAfter top p t = some (.stay (.after { p with after := t.text.reverse ++ p.after })) := by
  unfold stepAfter
  exact if_pos filler

/-- After the value of a field. -/
theorem stepAfter_table {ahead : List Char} {fields : List Field} {k : Key} {p : Placed}
    (other : ¬t.isFiller = true) :
    stepAfter (some (.table ahead fields k)) p t = (p.field? k).bind fun f =>
      if t = .mark ',' then some (.change (.table ahead (f :: fields) []) (.key {}))
      else if t = .mark '\x7d' then
        some (.pop ⟨ahead.reverse, .inline ⟨(f :: fields).reverse, false, []⟩, []⟩)
      else none := by
  unfold stepAfter
  rw [if_neg other]
  refine congrArg (Option.bind (p.field? k)) (funext fun f => ?_)
  split
  · rw [if_pos rfl]
  · rw [if_neg (by decide), if_pos rfl]
  · next comma brace => rw [if_neg comma, if_neg brace]

end ValueState

/-! ## Fields -/

/-- What surrounds a field: the key of the inline table, what stands before the table, and the
fields before, the latter two latest first. -/
structure Context where
  key : Key := []
  ahead : List Char := []
  fields : List Field := []

/-- Where the reader is in a field: in front of it or in its key, or in its value with what is open
there. -/
inductive FieldState
  | key (k : OpenKey)
  | value (k : Key) (inner : List Frame) (state : ValueState)

/-- The inline table while a field with the given key is read. -/
def Context.frame (ctx : Context) (k : Key) : Frame := .table ctx.ahead ctx.fields k

/-- The phase of the reader in a field. -/
def Context.phase (ctx : Context) : FieldState → Phase
  | .key k => .value ctx.key [ctx.frame []] (.key k)
  | .value k inner state => .value ctx.key (inner ++ [ctx.frame k]) state

/-- The context after a field. -/
def Context.add (ctx : Context) (f : Field) : Context := { ctx with fields := f :: ctx.fields }

/-- The phase after an inline table. -/
def Context.close (ctx : Context) (t : Inline) : Phase :=
  .tail (.entry ctx.key ctx.ahead.reverse (.inline t)) []

/-- The state after a token with the given effect. -/
def Effect.field (k : Key) (inner : List Frame) : Effect → FieldState
  | stay state => .value k inner state
  | push frame state => .value k (frame :: inner) state
  | change frame state => .value k (frame :: inner.tail) state
  | place p => .value k inner (.after p)
  | pop p => .value k inner.tail (.after p)

/-- What is known of a field of which the tokens `ts` have been read. -/
def FieldState.Known (ts : List Token) : FieldState → Prop
  | key k =>
    (k = { before := (textOf ts).reverse } ∧ ∀ t ∈ ts, t.isFiller = true) ∨
      (k.isFresh = false ∧ ∃ first, Filler first ∧ k.Good first)
  | value k inner state =>
    (inner = [] → ∀ k, state ≠ .key k) ∧ ∃ first, Filler first ∧ k.Good first

/-- Whether a comma or a brace ends a field, in any table. -/
def FieldState.Ends (state : FieldState) (f : Field) : Prop :=
  ∀ (ss : List Statement) (lead : List Char) (ctx : Context),
    Reader.step ⟨ss, lead, ctx.phase state⟩ (.mark ',') =
        some ⟨ss, lead, (ctx.add f).phase (.key {})⟩ ∧
      Reader.step ⟨ss, lead, ctx.phase state⟩ (.mark '\x7d') =
        some ⟨ss, lead, ctx.close ⟨(ctx.add f).fields.reverse, false, []⟩⟩

/-- How a token is read in a field, in any table: the field goes on, it ends, there is no field, or
the token may not stand there. -/
inductive FieldReading (ts : List Token) (state : FieldState) (t : Token) : Prop
  | goesOn (state' : FieldState) (known : state'.Known (ts ++ [t]))
      (step : ∀ ss lead (ctx : Context), Reader.step ⟨ss, lead, ctx.phase state⟩ t =
        some ⟨ss, lead, ctx.phase state'⟩)
  | ends (f : Field) (mark : t = .mark ',' ∨ t = .mark '\x7d') (ends : state.Ends f)
      (good : ∃ first, Filler first ∧ f.key.Good first)
  | closes (none : state = .key { before := (textOf ts).reverse })
      (fillers : ∀ t ∈ ts, t.isFiller = true) (mark : t = .mark '\x7d')
  | stops (step : ∀ ss lead (ctx : Context), Reader.step ⟨ss, lead, ctx.phase state⟩ t = none)

namespace Context

variable {k : Key} {inner : List Frame} {state : ValueState} {t : Token}

theorem apply_eq (ctx : Context) {e : Effect} (inside : inner ≠ [] ∨ ValueState.Begins e) :
    e.apply ctx.key (inner ++ [ctx.frame k]) = ctx.phase (e.field k inner) := by
  cases e with
  | stay state => rfl
  | push frame state => rfl
  | change frame state =>
      cases inner with
      | nil => exact (inside.resolve_left fun h => h rfl).elim
      | cons fr rest => rfl
  | place p => cases inner <;> rfl
  | pop p =>
      cases inner with
      | nil => exact (inside.resolve_left fun h => h rfl).elim
      | cons fr rest => cases rest <;> rfl

/-- A token in a value of a field. -/
theorem step_value (ctx : Context) (ss : List Statement) (lead : List Char) :
    Reader.step ⟨ss, lead, ctx.phase (.value k inner state)⟩ t =
      (state.ready? t).bind fun state =>
        (state.step (some (inner.head?.getD (ctx.frame k))) (inner.length + 1) t).map fun e =>
          ⟨ss, lead, e.apply ctx.key (inner ++ [ctx.frame k])⟩ := by
  change (state.ready? t).bind _ = _
  cases inner <;> simp

end Context

section Field

variable {ts : List Token} {t : Token}

/-- A token inside an array or inline table that a field contains. -/
theorem reading_nested {k : Key} {fr : Frame} {rest : List Frame} {state : ValueState}
    (known : (FieldState.value k (fr :: rest) state).Known ts) :
    FieldReading ts (.value k (fr :: rest) state) t := by
  have key := known.2
  -- what is read inside an array or a table does not depend on what it stands in
  cases effect : (state.ready? t).bind fun state => state.step (some fr) (rest.length + 2) t with
  | none =>
      refine .stops fun ss lead ctx => ?_
      rw [Context.step_value]
      rcases Option.bind_eq_none_iff.mp effect with h
      cases ready : state.ready? t with
      | none => rfl
      | some state' =>
          have fails := h state' ready
          rw [Option.bind_some]
          exact Option.map_eq_none_iff.mpr fails
  | some e =>
      obtain ⟨state', ready, step⟩ := Option.bind_eq_some_iff.mp effect
      refine .goesOn (e.field k (fr :: rest)) ?_ fun ss lead ctx => ?_
      · cases e with
        | stay state => exact ⟨nofun, key⟩
        | push frame state => exact ⟨nofun, key⟩
        | change frame state => exact ⟨nofun, key⟩
        | place p => exact ⟨nofun, key⟩
        | pop p => exact ⟨fun _ _ same => (nomatch same), key⟩
      · rw [Context.step_value, ready, Option.bind_some]
        change (state'.step (some fr) (rest.length + 2) t).map _ = _
        rw [step, Option.map_some, ctx.apply_eq (.inl (List.cons_ne_nil _ _))]

/-- A token in a value that is a field's, where it leaves open what is open. -/
theorem reading_begins {k : Key} {state state' : ValueState} {effect : Option Effect}
    (key : ∃ first, Filler first ∧ k.Good first) (ready : state.ready? t = some state')
    (same : ∀ ctx : Context, state'.step (some (ctx.frame k)) 1 t = effect)
    (begins : ∀ e, effect = some e → ValueState.Begins e) :
    FieldReading ts (.value k [] state) t := by
  have steps (ss : List Statement) (lead : List Char) (ctx : Context) :
      Reader.step ⟨ss, lead, ctx.phase (.value k [] state)⟩ t =
        effect.map fun e => ⟨ss, lead, e.apply ctx.key ([] ++ [ctx.frame k])⟩ := by
    rw [Context.step_value, ready, Option.bind_some, ← same ctx]
    rfl
  cases effect with
  | none => exact .stops steps
  | some e =>
      have clear := begins e rfl
      refine .goesOn (e.field k []) ?_ fun ss lead ctx => ?_
      · cases e with
        | stay state => exact ⟨fun _ => clear, key⟩
        | push frame state => exact ⟨nofun, key⟩
        | change frame state => exact clear.elim
        | place p => exact ⟨fun _ _ same => (nomatch same), key⟩
        | pop p => exact clear.elim
      · rw [steps, Option.map_some, ctx.apply_eq (.inr clear)]

/-- A comma and a brace complete the same words. -/
theorem ready?_comma (state : ValueState) :
    state.ready? (.mark ',') = state.ready? (.mark '\x7d') := by
  cases state <;> rfl

/-- After its value a field is ended by a comma or a brace. -/
theorem ends_of_ready {k : Key} {state : ValueState} {p : Placed} {f : Field}
    (ready : state.ready? (.mark '\x7d') = some (.after p)) (field : p.field? k = some f) :
    (FieldState.value k [] state).Ends f := by
  intro ss lead ctx
  constructor
  · rw [Context.step_value, ready?_comma, ready, Option.bind_some]
    change ((p.field? k).bind _).map _ = _
    rw [field]
    rfl
  · rw [Context.step_value, ready, Option.bind_some]
    change ((p.field? k).bind _).map _ = _
    rw [field]
    rfl

/-- A token after the value of a field. -/
theorem reading_after {k : Key} {state : ValueState} {p : Placed}
    (key : ∃ first, Filler first ∧ k.Good first) (ready : state.ready? t = some (.after p)) :
    FieldReading ts (.value k [] state) t := by
  have steps (ss : List Statement) (lead : List Char) (ctx : Context) :
      Reader.step ⟨ss, lead, ctx.phase (.value k [] state)⟩ t =
        (ValueState.stepAfter (some (ctx.frame k)) p t).map fun e =>
          ⟨ss, lead, e.apply ctx.key ([] ++ [ctx.frame k])⟩ := by
    rw [Context.step_value, ready, Option.bind_some]
    rfl
  by_cases filler : t.isFiller = true
  · refine .goesOn (.value k [] (.after { p with after := t.text.reverse ++ p.after }))
      ⟨fun _ _ same => (nomatch same), key⟩ fun ss lead ctx => ?_
    rw [steps, ValueState.stepAfter_of_isFiller filler]
    rfl
  cases field : p.field? k with
  | none =>
      refine .stops fun ss lead ctx => ?_
      rw [steps, Context.frame, ValueState.stepAfter_table filler, field]
      rfl
  | some f =>
      have same : f.key = k := by
        obtain ⟨v, -, rfl⟩ := Option.map_eq_some_iff.mp field
        rfl
      by_cases comma : t = .mark ','
      · refine .ends f (.inl comma) (ends_of_ready ?_ field) (same ▸ key)
        rw [← ready?_comma, ← comma]
        exact ready
      by_cases brace : t = .mark '\x7d'
      · refine .ends f (.inr brace) (ends_of_ready ?_ field) (same ▸ key)
        rw [← brace]
        exact ready
      · refine .stops fun ss lead ctx => ?_
        rw [steps, Context.frame, ValueState.stepAfter_table filler, field, Option.bind_some,
          if_neg comma, if_neg brace]
        rfl

/-- A part of a key begins with a character that comments may contain. -/
theorem printable_of_part? {p : List Char × String} (whole : t.Whole)
    (part : OpenKey.part? t = some p) (c : Char) : isPrintable (t.text.headD c) = true := by
  cases t with
  | word text =>
      obtain ⟨nonempty, all⟩ := whole
      obtain ⟨d, rest, rfl⟩ := List.exists_cons_of_ne_nil nonempty
      rw [List.all_cons, Bool.and_eq_true] at all
      exact isPrintable_of_isWordChar all.1
  | quoted text value multiline =>
      obtain ⟨⟨d, rest, rfl, quote⟩, -⟩ := whole
      rcases quote with rfl | rfl
      · exact (by decide : isPrintable '\x22' = true)
      · exact (by decide : isPrintable '\x27' = true)
  | _ => cases part

/-- What stands before the first part of a key. -/
theorem filler_before_part {c : Char} (whole : ∀ u ∈ ts ++ [t], u.Whole)
    (fillers : ∀ u ∈ ts, u.isFiller = true) (chain : Chain (ts ++ [t]) c)
    (printable : isPrintable (t.text.headD c) = true) : Filler (textOf ts) := by
  have cut := (chain_append.mp chain).1
  rw [textOf_cons, textOf_nil, List.append_nil] at cut
  exact filler_of_chain
    (fun u member => ⟨whole u (List.mem_append_left _ member), fillers u member⟩) cut printable

/-- A token in front of a field or in its key. -/
theorem reading_key {k : OpenKey} (known : (FieldState.key k).Known ts)
    (whole : ∀ u ∈ ts ++ [t], u.Whole) {c : Char} (chain : Chain (ts ++ [t]) c) :
    FieldReading ts (.key k) t := by
  have steps (ss : List Statement) (lead : List Char) (ctx : Context) :
      Reader.step ⟨ss, lead, ctx.phase (.key k)⟩ t =
        (ValueState.stepKey (some (ctx.frame [])) k t).map fun e =>
          ⟨ss, lead, e.apply ctx.key [ctx.frame []]⟩ := rfl
  simp only [Context.frame, ValueState.stepKey] at steps
  have here : t.Whole := whole t (List.mem_append_right _ List.mem_cons_self)
  by_cases filler : (k.isFresh && t.isFiller) = true
  · simp only [if_pos filler] at steps
    rw [Bool.and_eq_true] at filler
    obtain ⟨rfl, fillers⟩ := known.resolve_right fun started => by
      rw [started.1] at filler
      cases filler.1
    refine .goesOn (.key { before := t.text.reverse ++ (textOf ts).reverse })
      (Or.inl ⟨?_, fun u member => ?_⟩) steps
    · rw [textOf_append]
      simp
    · rcases List.mem_append.mp member with inside | last
      · exact fillers u inside
      · exact List.mem_singleton.mp last ▸ filler.2
  simp only [if_neg filler] at steps
  by_cases brace : t = .mark '\x7d'
  · by_cases fresh : k.isFresh = true
    · obtain ⟨rfl, fillers⟩ := known.resolve_right fun started => by
        rw [started.1] at fresh
        cases fresh
      exact .closes rfl fillers brace
    · simp only [if_pos brace, if_neg fresh] at steps
      exact .stops steps
  simp only [if_neg brace] at steps
  by_cases equals : t = .mark '='
  · simp only [if_pos equals] at steps
    cases finish : k.finish? with
    | none =>
        simp only [finish, Option.map_none] at steps
        exact .stops steps
    | some name =>
        simp only [finish, Option.map_some] at steps
        obtain ⟨-, first, filler, good⟩ := known.resolve_left fun fresh => by
          rw [fresh.1] at finish
          cases finish
        exact .goesOn (.value name [] (.before [])) ⟨fun _ _ same => (nomatch same), first, filler,
          good.finish finish⟩ steps
  simp only [if_neg equals] at steps
  cases step : k.step t with
  | none =>
      simp only [step, Option.map_none] at steps
      exact .stops steps
  | some k' =>
      simp only [step, Option.map_some] at steps
      refine .goesOn (.key k') (Or.inr ?_) steps
      rcases known with ⟨rfl, fillers⟩ | ⟨started, first, filler_first, good⟩
      · -- the first part of the key
        have fresh : ¬t.isFiller = true := fun h => filler (by rw [h]; rfl)
        obtain ⟨good, started⟩ := (OpenKey.good_step OpenKey.good_blank here step).resolve_right
          fun blank => by
            obtain ⟨-, d, rfl, -⟩ := blank
            exact fresh rfl
        rw [List.reverse_reverse] at good
        obtain ⟨p, part⟩ := OpenKey.part?_of_step fresh step
        exact ⟨started, _, filler_before_part whole fillers chain (printable_of_part? here part _),
          good⟩
      · obtain ⟨good, started⟩ := (OpenKey.good_step good here step).resolve_right fun blank => by
          rw [started] at blank
          cases blank.1
        exact ⟨started, first, filler_first, good⟩

/-- **How a token is read in a field.** -/
theorem field_reading {state : FieldState} (known : state.Known ts)
    (whole : ∀ u ∈ ts ++ [t], u.Whole) {c : Char} (chain : Chain (ts ++ [t]) c) :
    FieldReading ts state t := by
  cases state with
  | key k => exact reading_key known whole chain
  | value k inner state =>
      cases inner with
      | cons fr rest => exact reading_nested known
      | nil =>
          obtain ⟨proper, key⟩ := known
          cases ready : state.ready? t with
          | none =>
              refine .stops fun ss lead ctx => ?_
              rw [Context.step_value, ready]
              rfl
          | some state' =>
              cases state' with
              | before blanks =>
                  exact reading_begins key ready (fun ctx => rfl) fun e =>
                    ValueState.begins_stepBefore
              | word blanks text =>
                  exact reading_begins key ready (fun ctx => rfl) fun e =>
                    ValueState.begins_stepWord
              | date blanks text =>
                  exact reading_begins key ready (fun ctx => rfl) fun e =>
                    ValueState.begins_stepDate
              | after p => exact reading_after key ready
              | key k =>
                  rcases ValueState.ready?_cases ready with same | ⟨p, same⟩
                  · exact absurd same.symm (proper rfl k)
                  · cases same

end Field

/-! ## Good fields -/

/-- Whether tokens are read as a field in any inline table. -/
structure Field.Reads (f : Field) (ts : List Token) : Prop where
  whole : ∀ t ∈ ts, t.Whole
  chain : Chain ts ','
  run : ∃ state : FieldState, state.Ends f ∧ ∀ ss lead (ctx : Context),
    runAll Reader.step ⟨ss, lead, ctx.phase (.key {})⟩ ts = some ⟨ss, lead, ctx.phase state⟩

/-- A field that is read in any inline table. -/
structure Field.Good (f : Field) : Prop where
  key : ∃ first, Filler first ∧ f.key.Good first
  reads : ∃ ts, f.Reads ts

namespace Field.Reads

variable {f : Field} {ts : List Token}

theorem run_comma (reads : f.Reads ts) (ss : List Statement) (lead : List Char) (ctx : Context) :
    runAll Reader.step ⟨ss, lead, ctx.phase (.key {})⟩ (ts ++ [.mark ',']) =
      some ⟨ss, lead, (ctx.add f).phase (.key {})⟩ := by
  obtain ⟨state, ends, run⟩ := reads.run
  rw [runAll_append, run, Option.bind_some, runAll_singleton, (ends ss lead ctx).1]

theorem run_brace (reads : f.Reads ts) (ss : List Statement) (lead : List Char) (ctx : Context) :
    runAll Reader.step ⟨ss, lead, ctx.phase (.key {})⟩ (ts ++ [.mark '\x7d']) =
      some ⟨ss, lead, ctx.close ⟨(ctx.add f).fields.reverse, false, []⟩⟩ := by
  obtain ⟨state, ends, run⟩ := reads.run
  rw [runAll_append, run, Option.bind_some, runAll_singleton, (ends ss lead ctx).2]

/-- The tokens of a field are its text. -/
theorem text (reads : f.Reads ts) : textOf ts = f.render := by
  have kept := Reader.text_run (reads.run_comma [] [] {})
  rw [textOf_append] at kept
  have tables : f.render ++ [','] = textOf ts ++ [','] := by
    simpa [Reader.text, Phase.text, Context.phase, Context.frame, Context.add, fieldsText,
      Key.render, OpenKey.text, Token.text] using kept
  exact (List.append_cancel_right tables).symm

end Field.Reads

/-- **A field that has been read is read in any other table.** -/
theorem Field.good_of_ends {f : Field} {ts : List Token} {t : Token} {c : Char} {state : FieldState}
    (whole : ∀ u ∈ ts, u.Whole) (chain : Chain (ts ++ [t]) c)
    (mark : t = .mark ',' ∨ t = .mark '\x7d') (ends : state.Ends f)
    (key : ∃ first, Filler first ∧ f.key.Good first)
    (run : ∀ ss lead (ctx : Context),
      runAll Reader.step ⟨ss, lead, ctx.phase (.key {})⟩ ts = some ⟨ss, lead, ctx.phase state⟩) :
    f.Good := by
  have cut := (chain_append.mp chain).1
  refine ⟨key, ts, whole, ?_, state, ends, run⟩
  rcases mark with rfl | rfl
  · exact cut
  · exact Chain.replace cut whole (by decide : isPrintable '\x7d' = true) (by decide)

/-! ## Good inline tables -/

/-- An inline table that is written as it is read: a comma at the end comes after a field, and
without it what stands at the end belongs to the last field. -/
structure Inline.Good (t : Inline) : Prop where
  fields : ∀ f ∈ t.fields, f.Good
  last : Filler t.last
  comma : t.comma = true → t.fields ≠ []
  bare : t.comma = false → t.fields ≠ [] → t.last = []

/-- Fields with commas after them. -/
theorem exists_tokens_fields (fields : List Field) (good : ∀ f ∈ fields, f.Good) :
    ∃ ts, (∀ t ∈ ts, t.Whole) ∧ (∀ c, Chain ts c) ∧
      textOf ts = (fields.flatMap fun f => f.render ++ [',']) ∧
      ∀ ss lead (ctx : Context), runAll Reader.step ⟨ss, lead, ctx.phase (.key {})⟩ ts =
        some ⟨ss, lead, { ctx with fields := fields.reverse ++ ctx.fields }.phase (.key {})⟩ := by
  induction fields with
  | nil => exact ⟨[], nofun, fun c => trivial, rfl, fun ss lead ctx => rfl⟩
  | cons f fields ih =>
      obtain ⟨us, reads⟩ := (good f List.mem_cons_self).reads
      obtain ⟨ts, whole, chain, text, run⟩ :=
        ih fun g member => good g (List.mem_cons_of_mem _ member)
      have comma : (Token.mark ',').Whole := (rfl : isMark ',' = true)
      refine ⟨us ++ [.mark ','] ++ ts, fun t member => ?_, fun c => ?_, ?_, fun ss lead ctx => ?_⟩
      · rcases List.mem_append.mp member with first | later
        · rcases List.mem_append.mp first with inside | last
          · exact reads.whole t inside
          · exact List.mem_singleton.mp last ▸ comma
        · exact whole t later
      · refine chain_append.mpr ⟨chain_append.mpr ⟨reads.chain, ?_⟩, chain c⟩
        exact chain_singleton.mpr (comma.cutBy trivial)
      · rw [textOf_append, textOf_append, reads.text, text]
        simp [Token.text]
      · rw [runAll_append, reads.run_comma, Option.bind_some, run]
        simp [Context.add]

/-- Blanks, comments and line ends in front of a field. -/
theorem run_fillers {ts : List Token} (each : ∀ t ∈ ts, t.isFiller = true) (before : List Char)
    (ss : List Statement) (lead : List Char) (ctx : Context) :
    runAll Reader.step ⟨ss, lead, ctx.phase (.key { before })⟩ ts =
      some ⟨ss, lead, ctx.phase (.key { before := (textOf ts).reverse ++ before })⟩ := by
  induction ts generalizing before with
  | nil => rfl
  | cons t ts ih =>
      have first : Reader.step ⟨ss, lead, ctx.phase (.key { before })⟩ t =
          some ⟨ss, lead, ctx.phase (.key { before := t.text.reverse ++ before })⟩ := by
        change (ValueState.stepKey (some (ctx.frame [])) { before } t).map _ = _
        have filler := each t List.mem_cons_self
        simp only [Context.frame, ValueState.stepKey, filler]
        rfl
      rw [runAll_cons, first, Option.bind_some,
        ih fun u member => each u (List.mem_cons_of_mem _ member)]
      simp

/-- The brace that opens an inline table. -/
theorem run_open (ss : List Statement) (lead : List Char) (key : Key) (ahead : List Char)
    (ts : List Token) :
    runAll Reader.step ⟨ss, lead, .value key [] (.before ahead)⟩ (.mark '\x7b' :: ts) =
      runAll Reader.step ⟨ss, lead, ({ key, ahead } : Context).phase (.key {})⟩ ts := rfl

/-- The brace that closes an inline table where a field might stand. -/
theorem step_close (ss : List Statement) (lead before : List Char) (ctx : Context) :
    Reader.step ⟨ss, lead, ctx.phase (.key { before })⟩ (.mark '\x7d') =
      some ⟨ss, lead,
        ctx.close ⟨ctx.fields.reverse, !ctx.fields.isEmpty, before.reverse⟩⟩ := rfl

/-- Tokens of which the first is an opening brace and the last a closing one. -/
theorem whole_braces {ts : List Token} (whole : ∀ t ∈ ts, t.Whole) (chain : Chain ts '\x7d') :
    (∀ t ∈ .mark '\x7b' :: (ts ++ [.mark '\x7d']), t.Whole) ∧
      ∀ c, Chain (.mark '\x7b' :: (ts ++ [.mark '\x7d'])) c := by
  have opens : (Token.mark '\x7b').Whole := (rfl : isMark '\x7b' = true)
  have closes : (Token.mark '\x7d').Whole := (rfl : isMark '\x7d' = true)
  refine ⟨fun t member => ?_, fun c => ⟨opens.cutBy trivial, ?_⟩⟩
  · rcases List.mem_cons.mp member with rfl | member
    · exact opens
    rcases List.mem_append.mp member with inside | last
    · exact whole t inside
    · exact List.mem_singleton.mp last ▸ closes
  · exact chain_append.mpr ⟨chain, chain_singleton.mpr (closes.cutBy trivial)⟩

/-- **A good inline table is read back from its text.** -/
theorem Inline.Good.read {t : Inline} (good : t.Good) :
    ∃ ts, (∀ u ∈ ts, u.Whole) ∧ (∀ c, Chain ts c) ∧ textOf ts = t.render ∧
      ∀ ss lead key ahead, runAll Reader.step ⟨ss, lead, .value key [] (.before ahead)⟩ ts =
        some ⟨ss, lead, .tail (.entry key ahead.reverse (.inline t)) []⟩ := by
  obtain ⟨fields, comma, last⟩ := t
  by_cases ended : comma = !fields.isEmpty
  · -- what stands before the brace is in front of a field that does not come
    obtain ⟨ts, whole, chain, text, run⟩ := exists_tokens_fields fields good.fields
    obtain ⟨us, fillers, chain', text'⟩ := good.last
    dsimp only at text'
    obtain ⟨whole_all, chain_all⟩ := @whole_braces (ts ++ us)
      (fun t member => (List.mem_append.mp member).elim (whole t) fun h => (fillers t h).1)
      (chain_append.mpr ⟨chain _, chain' _⟩)
    refine ⟨_, whole_all, chain_all, ?_, fun ss lead key ahead => ?_⟩
    · have render := render_inline fields.reverse last
      rw [List.reverse_reverse, List.isEmpty_reverse, ← ended] at render
      rw [render, textOf_cons, textOf_append, textOf_append, text, text']
      simp [Token.text, fieldsText]
    · rw [run_open, List.append_assoc, runAll_append, run, Option.bind_some, runAll_append,
        run_fillers fun t member => (fillers t member).2, Option.bind_some, runAll_singleton,
        step_close]
      simp [Context.close, text', ended]
  · -- the last field has no comma
    obtain ⟨rfl, nonempty⟩ : comma = false ∧ fields ≠ [] := by
      cases comma with
      | true => exact absurd (by simpa using good.comma rfl) ended
      | false => exact ⟨rfl, by simpa using ended⟩
    obtain rfl : last = [] := good.bare rfl nonempty
    obtain ⟨before, f, rfl⟩ := (List.eq_nil_or_concat fields).resolve_left nonempty
    rw [List.concat_eq_append] at good ⊢
    obtain ⟨ts, whole, chain, text, run⟩ := exists_tokens_fields before
      fun g member => good.fields g (List.mem_append_left _ member)
    obtain ⟨us, reads⟩ := (good.fields f (List.mem_append_right _ List.mem_cons_self)).reads
    have chain' : Chain us '\x7d' :=
      reads.chain.replace reads.whole (by decide : isPrintable ',' = true) (by decide)
    obtain ⟨whole_all, chain_all⟩ := @whole_braces (ts ++ us)
      (fun t member => (List.mem_append.mp member).elim (whole t) (reads.whole t))
      (chain_append.mpr ⟨chain _, chain'⟩)
    refine ⟨_, whole_all, chain_all, ?_, fun ss lead key ahead => ?_⟩
    · have render := render_inline_last f before.reverse
      rw [List.reverse_cons, List.reverse_reverse] at render
      rw [render, textOf_cons, textOf_append, textOf_append, text, reads.text]
      simp [Token.text, fieldsText]
    · rw [run_open, List.append_assoc, runAll_append, run, Option.bind_some, reads.run_brace]
      simp [Context.close, Context.add]

end Gatekeeper.Toml
