import Gatekeeper.Proofs.Toml.Inline

set_option autoImplicit false

/-!
# Statements

A statement is well written (`Statement.Good`) if its tokens are read as that statement and its
parts may be used elsewhere: what stands before it, its key, and the fields of its value where that
is an inline table. All statements of a document that has been read are (`good_of_layout?`), and a
document of well written statements is read back from its text (`Document.Good.read`).
-/

namespace Gatekeeper.Toml

/-- Whether a text may stand after a statement: blanks and a comment. -/
def Trail (s : List Char) : Prop :=
  ∃ ts : List Token, (∀ t ∈ ts, t.Whole ∧ ((∃ c, t = .space c) ∨ ∃ text, t = .comment text)) ∧
    Chain ts '\n' ∧ textOf ts = s

/-- A value between what stands before and after it: an inline table is good, and what is not one is
no table. -/
def Written.Good (before tail : List Char) : Written → Prop
  | .plain _ v => ∀ fields, v ≠ .table fields
  | .inline t => Blank before ∧ t.Good ∧ Trail tail

/-- Whether tokens are read as a statement. -/
structure Statement.Reads (s : Statement) (ts : List Token) : Prop where
  whole : ∀ t ∈ ts, t.Whole
  chain : Chain ts '\n'
  run : runAll Reader.step {} (ts ++ [.newline]) = some { statements := [s] }

/-- What is known of the parts of a statement that has been read. -/
structure Statement.Known (s : Statement) : Prop where
  lead : Filler s.lead
  key : ∃ first, s.body.key.Good first ∧ Blank first ∧ (s.body.isHeader = false → first = [])
  value : ∀ key before w, s.body = .entry key before w → w.Good before s.tail

/-- A statement that is read from its text, of good parts. -/
structure Statement.Good (s : Statement) : Prop extends s.Known where
  reads : ∃ ts, s.Reads ts

/-- A document of good statements. -/
structure Document.Good (d : Document) : Prop where
  statements : ∀ s ∈ d.statements, s.Good
  rest : ∃ ts : List Token, (∀ t ∈ ts, t.Whole ∧ t.isFiller = true) ∧ Chain ts '\n' ∧
    textOf ts = d.rest

/-! ## Effects -/

namespace ValueState

variable {state : ValueState} {t : Token} {e : Effect}

/-- The value of a word is no table. -/
theorem word_ne_table {s : List Char} {v : Value} (value : Scalar.value? s = some v)
    (fields : List (String × Value)) : v ≠ .table fields := by
  rintro rfl
  unfold Scalar.value? at value
  repeat' split at value
  all_goals cases value

/-- What a word that is complete says is no table. -/
theorem plain_of_ready? {p : Placed} (other : ∀ p, state ≠ .after p)
    (ready : state.ready? t = some (.after p)) :
    ∃ text v, p.value = .plain text v ∧ ∀ fields, v ≠ .table fields := by
  have word {blanks text after : List Char} {p : Placed} (word : word? blanks text after = some p) :
      ∃ text v, p.value = .plain text v ∧ ∀ fields, v ≠ .table fields := by
    obtain ⟨v, value, rfl⟩ := Option.map_eq_some_iff.mp word
    exact ⟨_, v, rfl, word_ne_table value⟩
  unfold ready? at ready
  split at ready
  · cases ready
  · cases ready
  · split at ready
    · cases ready
    · obtain ⟨p, found, shape⟩ := Option.map_eq_some_iff.mp ready
      cases shape
      exact word found
  · cases ready
  · obtain ⟨p, found, shape⟩ := Option.map_eq_some_iff.mp ready
    cases shape
    exact word found
  · exact absurd (Option.some.inj ready) (other p)

/-- Whether an effect leaves an array an array, or makes a value of it. -/
def KeepsArray : Effect → Prop
  | .change frame _ => ∃ ahead text items, frame = .array ahead text items
  | .pop p => ∃ text items, p.value = .plain text (.array items)
  | _ => True

theorem keepsArray_step {ahead text : List Char} {items : List Value} {depth : Nat}
    (step : state.step (some (.array ahead text items)) depth t = some e) : KeepsArray e := by
  have started {depth : Nat} {blanks : List Char} (step : start depth blanks t = some e) :
      KeepsArray e := by
    rcases start_cases step with ⟨_, rfl⟩ | ⟨_, _, rfl⟩ | ⟨_, rfl⟩ | rfl <;> trivial
  cases state with
  | before blanks =>
      have before : stepBefore (some (.array ahead text items)) depth blanks t = some e := step
      rcases stepBefore_cases before with ⟨_, _, _, _, _, rfl⟩ | ⟨_, rfl⟩ | begins
      · exact ⟨_, _, rfl⟩
      · trivial
      · exact started begins
  | word blanks text =>
      unfold ValueState.step stepWord at step
      dsimp only at step
      split at step <;> cases step <;> trivial
  | date blanks text =>
      unfold ValueState.step stepDate at step
      dsimp only at step
      split at step <;> cases step
      trivial
  | after p =>
      unfold ValueState.step stepAfter at step
      dsimp only at step
      split at step
      · cases step
        trivial
      · obtain ⟨v, -, step⟩ := Option.bind_eq_some_iff.mp step
        split at step
        · cases step
          exact ⟨_, _, _, rfl⟩
        · cases step
          exact ⟨_, _, rfl⟩
        · cases step
  | key k => cases step

end ValueState

/-! ## What is known of a statement that is being read -/

/-- What is known of a value of which the last token was the last of `read`. -/
inductive ValueKnown (read : List Token) : Phase → Prop
  | top (key : Key) (good : key.Good []) (state : ValueState)
      (blank : ∀ b, state = .before b → Blank b.reverse)
      (noKey : ∀ k, state ≠ .key k) (noAfter : ∀ p, state ≠ .after p) :
      ValueKnown read (.value key [] state)
  | array (key : Key) (good : key.Good []) (inner : List Frame) (ahead text : List Char)
      (items : List Value) (state : ValueState) :
      ValueKnown read (.value key (inner ++ [.array ahead text items]) state)
  | field (ctx : Context) (good : ctx.key.Good []) (state : FieldState) (earlier ts : List Token)
      (split : read = earlier ++ ts) (blank : Blank ctx.ahead.reverse)
      (fields : ∀ f ∈ ctx.fields, f.Good) (known : state.Known ts)
      (run : ∀ ss lead (ctx : Context),
        runAll Reader.step ⟨ss, lead, ctx.phase (.key {})⟩ ts = some ⟨ss, lead, ctx.phase state⟩) :
      ValueKnown read (ctx.phase state)

/-- Whether tokens may stand after a statement on its line. -/
def IsTrail (ts : List Token) : Prop :=
  ∀ t ∈ ts, (∃ c, t = .space c) ∨ ∃ text, t = .comment text

/-- What is known of a statement and of what stands after it, latest first. -/
def BodyKnown (read : List Token) (text : List Char) : Body → Prop
  | .header _ key => ∃ first, Blank first ∧ key.Good first
  | .entry key _ (.plain _ v) => key.Good [] ∧ ∀ fields, v ≠ .table fields
  | .entry key before (.inline t) =>
    key.Good [] ∧ Blank before ∧ t.Good ∧
      ∃ earlier ts, read = earlier ++ ts ∧ IsTrail ts ∧ (textOf ts).reverse = text

/-- What is known of a statement of which the tokens `read` have been read. -/
def Phase.Known (read : List Token) (lead : List Char) : Phase → Prop
  | .lead => (∀ t ∈ read, t.isFiller = true) ∧ textOf read = lead.reverse
  | .bracket => Filler lead.reverse
  | .header _ k => Filler lead.reverse ∧ ∃ first, Blank first ∧ k.Good first
  | .closing name => Filler lead.reverse ∧ ∃ first, Blank first ∧ name.Good first
  | .key k => Filler lead.reverse ∧ k.isFresh = false ∧ k.Good []
  | .value name frames state =>
    Filler lead.reverse ∧ ValueKnown read (.value name frames state)
  | .tail body text => Filler lead.reverse ∧ BodyKnown read text body

/-- What a token makes of a statement: it goes on, or it is complete. -/
inductive Advances (read : List Token) (t : Token) (r : Reader) : Prop
  | goesOn (lead : List Char) (phase : Phase) (same : r = ⟨[], lead, phase⟩)
      (known : phase.Known (read ++ [t]) lead)
  | ends (s : Statement) (same : r = { statements := [s] }) (line : t = .newline) (known : s.Known)

namespace Phase.Known

variable {read : List Token} {t : Token} {c : Char} {lead : List Char} {r : Reader}

/-- A token after a statement. -/
theorem advances_tail {body : Body} {text : List Char} (filler : Filler lead.reverse)
    (known : BodyKnown read text body) (whole : ∀ u ∈ read ++ [t], u.Whole)
    (chain : Chain (read ++ [t]) c) {phase : Phase}
    (step : Reader.stepTail ⟨[], lead, phase⟩ body text t = some r) : Advances read t r := by
  -- a blank or a comment more
  have more {text' : List Char} (trail : IsTrail [t]) (same : text' = t.text.reverse ++ text) :
      BodyKnown (read ++ [t]) text' body := by
    cases body with
    | header array key => exact known
    | entry key before w =>
        cases w with
        | plain s v => exact known
        | inline table =>
            obtain ⟨key, blank, good, earlier, ts, rfl, all, rfl⟩ := known
            refine ⟨key, blank, good, earlier, ts ++ [t], List.append_assoc _ _ _,
              fun u member => ?_, ?_⟩
            · exact (List.mem_append.mp member).elim (all u) (trail u)
            · rw [same, textOf_append, textOf_cons, textOf_nil, List.append_nil,
                List.reverse_append]
  unfold Reader.stepTail at step
  split at step
  · cases step
    refine .ends _ rfl rfl ⟨filler, ?_, ?_⟩
    · cases body with
      | header array key =>
          obtain ⟨first, blank, good⟩ := known
          exact ⟨first, good, blank, nofun⟩
      | entry key before w =>
          refine ⟨[], ?_, blank_nil, fun _ => rfl⟩
          cases w with
          | plain s v => exact known.1
          | inline table => exact known.1
    · rintro key before w rfl
      cases w with
      | plain s v => exact known.2
      | inline table =>
          obtain ⟨-, blank, good, earlier, ts, rfl, all, rfl⟩ := known
          refine ⟨blank, good, ts, fun u member => ⟨whole u ?_, all u member⟩, ?_, ?_⟩
          · exact List.mem_append_left _ (List.mem_append_right _ member)
          · exact (chain_append.mp (chain_append.mp chain).1).2
          · exact (List.reverse_reverse _).symm
  · next d =>
    cases step
    refine .goesOn _ _ rfl ⟨filler, more (fun u member => ?_) rfl⟩
    exact .inl ⟨d, List.mem_singleton.mp member⟩
  · next s =>
    cases step
    refine .goesOn _ _ rfl ⟨filler, more (fun u member => ?_) rfl⟩
    exact .inr ⟨s, List.mem_singleton.mp member⟩
  · cases step

/-- The first token of a key. -/
theorem begins_key {k : OpenKey} (other : ¬t.isFiller = true) (whole : t.Whole)
    (step : OpenKey.step {} t = some k) : k.isFresh = false ∧ k.Good [] := by
  have good : OpenKey.Good [] {} := @OpenKey.good_blank []
  rcases OpenKey.good_step good whole step with ⟨good, started⟩ | ⟨-, c, rfl, -⟩
  · exact ⟨started, good⟩
  · exact absurd rfl other

/-- A token in the key of a header. -/
theorem header_key {first : List Char} {k k' : OpenKey} (blank : Blank first) (good : k.Good first)
    (whole : t.Whole) (step : k.step t = some k') : ∃ first, Blank first ∧ k'.Good first := by
  rcases OpenKey.good_step good whole step with ⟨good, -⟩ | ⟨-, c, rfl, good⟩
  · exact ⟨first, blank, good⟩
  · refine ⟨_, blank.append fun d member => ?_, good⟩
    rw [List.mem_singleton.mp member]
    exact whole

/-- A token in a value that is not part of another one. -/
theorem advances_top {key : Key} {state : ValueState} (filler : Filler lead.reverse)
    (good : key.Good []) (blank : ∀ b, state = .before b → Blank b.reverse)
    (noKey : ∀ k, state ≠ .key k) (noAfter : ∀ p, state ≠ .after p)
    (whole : ∀ u ∈ read ++ [t], u.Whole) (chain : Chain (read ++ [t]) c)
    (step : Reader.step ⟨[], lead, .value key [] state⟩ t = some r) : Advances read t r := by
  have here : t.Whole := whole t (List.mem_append_right _ List.mem_cons_self)
  obtain ⟨state', ready, step⟩ := Option.bind_eq_some_iff.mp step
  cases state' with
  | after p =>
      obtain ⟨text, v, plain, noTable⟩ := ValueState.plain_of_ready? noAfter ready
      refine advances_tail filler ?_ whole chain step
      rw [plain]
      exact ⟨good, noTable⟩
  | key k =>
      rcases ValueState.ready?_cases ready with same | ⟨p, same⟩
      · exact absurd same.symm (noKey k)
      · cases same
  | before b =>
      have blank_b : Blank b.reverse := by
        rcases ValueState.ready?_cases ready with same | ⟨p, same⟩
        · exact blank b same.symm
        · cases same
      obtain ⟨e, effect, rfl⟩ := Option.map_eq_some_iff.mp step
      have started (start : ValueState.start 0 b t = some e) :
          Advances read t ⟨[], lead, e.apply key []⟩ := by
        rcases ValueState.start_cases start with ⟨text, rfl⟩ | ⟨text, s, rfl⟩ | ⟨text, rfl⟩ | rfl
        · exact .goesOn _ _ rfl ⟨filler, .top key good _ (fun _ same => nomatch same)
            (fun _ same => nomatch same) (fun _ same => nomatch same)⟩
        · exact .goesOn _ _ rfl ⟨filler, good, fun _ same => nomatch same⟩
        · exact .goesOn _ _ rfl ⟨filler, .array key good [] _ _ _ _⟩
        · exact .goesOn _ _ rfl ⟨filler, .field { key, ahead := b } good (.key {}) _ []
            (List.append_nil _).symm blank_b nofun (Or.inl ⟨rfl, nofun⟩) fun _ _ _ => rfl⟩
      change ValueState.stepBefore none 0 b t = some e at effect
      rcases ValueState.stepBefore_cases effect with ⟨_, _, _, top, _, _⟩ | ⟨space, rfl⟩ | begins
      · cases top
      · obtain ⟨d, rfl⟩ := space rfl
        refine .goesOn _ _ rfl ⟨filler, .top key good _ (fun b' same => ?_)
          (fun _ same => nomatch same) (fun _ same => nomatch same)⟩
        cases same
        rw [List.reverse_append]
        refine blank_b.append fun e member => ?_
        rw [List.mem_singleton.mp member]
        exact here
      · exact started begins
  | word b text =>
      obtain ⟨e, effect, rfl⟩ := Option.map_eq_some_iff.mp step
      change ValueState.stepWord b text t = some e at effect
      unfold ValueState.stepWord at effect
      split at effect <;> cases effect <;>
        exact .goesOn _ _ rfl ⟨filler, .top key good _ (fun _ same => nomatch same)
          (fun _ same => nomatch same) (fun _ same => nomatch same)⟩
  | date b text =>
      obtain ⟨e, effect, rfl⟩ := Option.map_eq_some_iff.mp step
      change ValueState.stepDate b text t = some e at effect
      unfold ValueState.stepDate at effect
      split at effect <;> cases effect
      exact .goesOn _ _ rfl ⟨filler, .top key good _ (fun _ same => nomatch same)
        (fun _ same => nomatch same) (fun _ same => nomatch same)⟩

/-- A token inside an array that is not part of another value. -/
theorem advances_array {key : Key} {inner : List Frame} {ahead text : List Char}
    {items : List Value} {state : ValueState} (filler : Filler lead.reverse) (good : key.Good [])
    (step : Reader.step ⟨[], lead, .value key (inner ++ [.array ahead text items]) state⟩ t =
      some r) : Advances read t r := by
  -- whatever happens inside the array, it stays the outermost of what is open
  have inside (inner : List Frame) (state : ValueState) (ahead text : List Char)
      (items : List Value) :
      Advances read t ⟨[], lead, .value key (inner ++ [.array ahead text items]) state⟩ :=
    .goesOn _ _ rfl ⟨filler, .array key good inner ahead text items state⟩
  obtain ⟨state', ready, step⟩ := Option.bind_eq_some_iff.mp step
  cases inner with
  | nil =>
      obtain ⟨e, effect, rfl⟩ := Option.map_eq_some_iff.mp step
      have keeps := ValueState.keepsArray_step effect
      cases e with
      | stay state => exact inside [] state _ _ _
      | push frame state => exact inside [frame] state _ _ _
      | change frame state =>
          obtain ⟨ahead, text, items, rfl⟩ := keeps
          exact inside [] state _ _ _
      | place p => exact inside [] (.after p) _ _ _
      | pop p =>
          obtain ⟨text, items, plain⟩ := keeps
          refine .goesOn _ _ rfl ⟨filler, ?_⟩
          rw [plain]
          exact ⟨good, fun _ same => nomatch same⟩
  | cons fr rest =>
      obtain ⟨e, effect, rfl⟩ := Option.map_eq_some_iff.mp step
      cases e with
      | stay state => exact inside (fr :: rest) state _ _ _
      | push frame state => exact inside (frame :: fr :: rest) state _ _ _
      | change frame state => exact inside (frame :: rest) state _ _ _
      | place p => exact inside (fr :: rest) (.after p) _ _ _
      | pop p =>
          cases rest with
          | nil => exact inside [] (.after p) _ _ _
          | cons fr' rest => exact inside (fr' :: rest) (.after p) _ _ _

/-- What is known in a value is known of a phase. -/
theorem of_value {phase : Phase} (filler : Filler lead.reverse) (known : ValueKnown read phase) :
    phase.Known read lead := by
  cases known with
  | top key good state blank noKey noAfter =>
      exact ⟨filler, .top key good state blank noKey noAfter⟩
  | array key good inner ahead text items state =>
      exact ⟨filler, .array key good inner ahead text items state⟩
  | field ctx good state earlier ts split blank fields known run =>
      have inside := ValueKnown.field ctx good state earlier ts split blank fields known run
      cases state with
      | key k => exact ⟨filler, inside⟩
      | value k inner state => exact ⟨filler, inside⟩

/-- A token in a field of an inline table that is not part of another value. -/
theorem advances_field {ctx : Context} {state : FieldState} {earlier ts : List Token}
    (filler : Filler lead.reverse) (good : ctx.key.Good []) (split : read = earlier ++ ts)
    (blank : Blank ctx.ahead.reverse) (fields : ∀ f ∈ ctx.fields, f.Good) (known : state.Known ts)
    (run : ∀ ss lead (ctx : Context),
      runAll Reader.step ⟨ss, lead, ctx.phase (.key {})⟩ ts = some ⟨ss, lead, ctx.phase state⟩)
    (whole : ∀ u ∈ read ++ [t], u.Whole) (chain : Chain (read ++ [t]) c)
    (step : Reader.step ⟨[], lead, ctx.phase state⟩ t = some r) : Advances read t r := by
  have whole_ts : ∀ u ∈ ts ++ [t], u.Whole := by
    intro u member
    refine whole u ?_
    rw [split, List.append_assoc]
    exact List.mem_append_right _ member
  have chain_ts : Chain (ts ++ [t]) c := by
    rw [split, List.append_assoc] at chain
    exact (chain_append.mp chain).2
  -- an inline table that is closed here
  have closed {table : Inline} (good_table : table.Good) :
      Advances read t ⟨[], lead, ctx.close table⟩ :=
    .goesOn _ _ rfl ⟨filler, good, blank, good_table, _, [], (List.append_nil _).symm, nofun, rfl⟩
  have with_field {f : Field} (field : f.Good) : ∀ g ∈ (ctx.add f).fields, g.Good := by
    intro g member
    rcases List.mem_cons.mp member with rfl | inside
    · exact field
    · exact fields g inside
  cases field_reading known whole_ts chain_ts with
  | goesOn state' known' step' =>
      rw [step'] at step
      cases step
      have read_eq : read ++ [t] = earlier ++ (ts ++ [t]) := by rw [split, List.append_assoc]
      have run' (ss : List Statement) (lead : List Char) (ctx : Context) :
          runAll Reader.step ⟨ss, lead, ctx.phase (.key {})⟩ (ts ++ [t]) =
            some ⟨ss, lead, ctx.phase state'⟩ := by
        rw [runAll_append, run, Option.bind_some, runAll_singleton, step']
      exact .goesOn _ _ rfl
        (of_value filler (.field ctx good state' _ _ read_eq blank fields known' run'))
  | ends f mark ends key =>
      have field := Field.good_of_ends (fun u member => whole_ts u (List.mem_append_left _ member))
        chain_ts mark ends key run
      rcases mark with rfl | rfl
      · rw [(ends [] lead ctx).1] at step
        cases step
        exact .goesOn _ _ rfl (of_value filler (.field (ctx.add f) good (.key {}) _ []
          (List.append_nil _).symm blank (with_field field) (Or.inl ⟨rfl, nofun⟩) fun _ _ _ => rfl))
      · rw [(ends [] lead ctx).2] at step
        cases step
        exact closed ⟨fun g member => with_field field g (List.mem_reverse.mp member), filler_nil,
          nofun, fun _ _ => rfl⟩
  | closes none fillers mark =>
      subst none mark
      rw [step_close] at step
      cases step
      refine closed ⟨fun g member => fields g (List.mem_reverse.mp member), ?_, fun comma => ?_,
        fun comma nonempty => ?_⟩
      · rw [List.reverse_reverse]
        exact filler_before_part whole_ts fillers chain_ts (by decide : isPrintable '\x7d' = true)
      · simpa using comma
      · exact absurd (by simpa using comma) nonempty
  | stops step' =>
      rw [step'] at step
      cases step

/-- A token in a value. -/
theorem advances_value {phase : Phase} (filler : Filler lead.reverse)
    (known : ValueKnown read phase) (whole : ∀ u ∈ read ++ [t], u.Whole)
    (chain : Chain (read ++ [t]) c)
    (step : Reader.step ⟨[], lead, phase⟩ t = some r) : Advances read t r := by
  cases known with
  | top key good state blank noKey noAfter =>
      exact advances_top filler good blank noKey noAfter whole chain step
  | array key good inner ahead text items state => exact advances_array filler good step
  | field ctx good state earlier ts split blank fields known run =>
      exact advances_field filler good split blank fields known run whole chain step

/-- **What a token makes of a statement.** -/
theorem advances {phase : Phase} (known : phase.Known read lead)
    (whole : ∀ u ∈ read ++ [t], u.Whole) (chain : Chain (read ++ [t]) c)
    (step : Reader.step ⟨[], lead, phase⟩ t = some r) : Advances read t r := by
  have here : t.Whole := whole t (List.mem_append_right _ List.mem_cons_self)
  cases phase with
  | lead =>
      obtain ⟨fillers, text⟩ := known
      unfold Reader.step at step
      dsimp only at step
      split at step
      · next filler =>
        cases step
        refine .goesOn _ _ rfl ⟨fun u member => ?_, ?_⟩
        · rcases List.mem_append.mp member with inside | last
          · exact fillers u inside
          · exact List.mem_singleton.mp last ▸ filler
        · rw [textOf_append, text]
          simp
      split at step
      · next bracket =>
        cases step
        refine .goesOn _ _ rfl ?_
        rw [Phase.Known, ← text]
        refine filler_before_part whole fillers chain ?_
        rw [bracket]
        exact (by decide : isPrintable '[' = true)
      · next other _ =>
        obtain ⟨k, begun, rfl⟩ := Option.map_eq_some_iff.mp step
        obtain ⟨p, part⟩ := OpenKey.part?_of_step other begun
        refine .goesOn _ _ rfl ⟨?_, begins_key other here begun⟩
        rw [← text]
        exact filler_before_part whole fillers chain (printable_of_part? here part _)
  | bracket =>
      have empty : OpenKey.Good [] {} := @OpenKey.good_blank []
      unfold Reader.step at step
      dsimp only at step
      split at step
      · cases step
        exact .goesOn _ _ rfl ⟨known, [], blank_nil, empty⟩
      · obtain ⟨k, begun, rfl⟩ := Option.map_eq_some_iff.mp step
        exact .goesOn _ _ rfl ⟨known, header_key blank_nil empty here begun⟩
  | header array k =>
      obtain ⟨filler, first, blank, good⟩ := known
      unfold Reader.step at step
      dsimp only at step
      split at step
      · obtain ⟨key, finish, rfl⟩ := Option.map_eq_some_iff.mp step
        have closed := good.finish finish
        cases array with
        | true => exact .goesOn _ _ rfl ⟨filler, first, blank, closed⟩
        | false => exact .goesOn _ _ rfl ⟨filler, first, blank, closed⟩
      · obtain ⟨k', next, rfl⟩ := Option.map_eq_some_iff.mp step
        exact .goesOn _ _ rfl ⟨filler, header_key blank good here next⟩
  | closing key =>
      obtain ⟨filler, first, blank, good⟩ := known
      unfold Reader.step at step
      dsimp only at step
      split at step
      · cases step
        exact .goesOn _ _ rfl ⟨filler, first, blank, good⟩
      · cases step
  | key k =>
      obtain ⟨filler, started, good⟩ := known
      unfold Reader.step at step
      dsimp only at step
      split at step
      · obtain ⟨key, finish, rfl⟩ := Option.map_eq_some_iff.mp step
        refine .goesOn _ _ rfl ⟨filler, .top key (good.finish finish) _ (fun b same => ?_)
          (fun _ same => nomatch same) (fun _ same => nomatch same)⟩
        cases same
        exact blank_nil
      · obtain ⟨k', next, rfl⟩ := Option.map_eq_some_iff.mp step
        obtain ⟨good, started⟩ := (OpenKey.good_step good here next).resolve_right fun fresh => by
          rw [started] at fresh
          cases fresh.1
        exact .goesOn _ _ rfl ⟨filler, started, good⟩
  | value key frames state => exact advances_value known.1 known.2 whole chain step
  | tail body text => exact advances_tail known.1 known.2 whole chain step

end Phase.Known

/-! ## Documents that have been read -/

namespace Reader

variable {r : Reader} {t : Token}

/-- The reader with statements before those it has read. -/
def onto (r : Reader) (earlier : List Statement) : Reader :=
  { r with statements := r.statements ++ earlier }

/-- A token is read alike whatever statements came before. -/
theorem step_onto (earlier : List Statement) :
    (r.onto earlier).step t = (r.step t).map fun r => r.onto earlier := by
  obtain ⟨ss, lead, phase⟩ := r
  have tail (body : Body) (text : List Char) (phase : Phase) :
      stepTail ⟨ss ++ earlier, lead, phase⟩ body text t =
        (stepTail ⟨ss, lead, phase⟩ body text t).map fun r => r.onto earlier := by
    cases t <;> rfl
  cases phase with
  | lead =>
      simp only [step, onto]
      split
      · rfl
      split
      · rfl
      · rw [Option.map_map]
        rfl
  | bracket =>
      simp only [step, onto]
      split
      · rfl
      · rw [Option.map_map]
        rfl
  | header array k =>
      simp only [step, onto]
      split <;> rw [Option.map_map] <;> rfl
  | closing key =>
      simp only [step, onto]
      split <;> rfl
  | key k =>
      simp only [step, onto]
      split <;> rw [Option.map_map] <;> rfl
  | value key frames state =>
      change (state.ready? t).bind _ = ((state.ready? t).bind _).map _
      rw [Option.map_bind]
      refine congrArg (Option.bind (state.ready? t)) (funext fun state' => ?_)
      dsimp only [Function.comp, onto]
      split
      · exact tail _ _ _
      · rw [Option.map_map]
        rfl
  | tail body text => exact tail body text _

theorem run_onto (earlier : List Statement) (ts : List Token) :
    runAll Reader.step (r.onto earlier) ts = (runAll Reader.step r ts).map fun r =>
      r.onto earlier := by
  induction ts generalizing r with
  | nil => rfl
  | cons t ts ih =>
      rw [runAll_cons, runAll_cons, step_onto, Option.map_bind, Option.bind_map]
      exact congrArg (Option.bind (r.step t)) (funext fun r => ih)

end Reader

/-- What is known where the tokens `all` have been read: the statements are good, and the last
tokens have been read of the one at hand. -/
structure Reader.Known (all : List Token) (r : Reader) : Prop where
  statements : ∀ s ∈ r.statements, s.Good
  last : ∃ earlier read, all = earlier ++ read ∧ r.phase.Known read r.lead ∧
    runAll Reader.step {} read = some ⟨[], r.lead, r.phase⟩

namespace Reader.Known

variable {all ts : List Token} {r r' : Reader} {t : Token} {c : Char}

theorem start : Reader.Known [] {} :=
  ⟨nofun, [], [], rfl, ⟨nofun, rfl⟩, rfl⟩

/-- **A token keeps what is known.** -/
theorem step (known : Reader.Known all r) (whole : ∀ u ∈ all ++ [t], u.Whole)
    (chain : Chain (all ++ [t]) c) (step : r.step t = some r') : Reader.Known (all ++ [t]) r' := by
  obtain ⟨ss, lead, phase⟩ := r
  obtain ⟨good, earlier, read, rfl, here, run⟩ := known
  have whole_read : ∀ u ∈ read ++ [t], u.Whole := fun u member =>
    whole u (List.append_assoc earlier read [t] ▸ List.mem_append_right _ member)
  rw [List.append_assoc] at chain
  have chain_read := (chain_append.mp chain).2
  -- the token is read as if there were no earlier statements
  have apart : (⟨ss, lead, phase⟩ : Reader) = Reader.onto ⟨[], lead, phase⟩ ss := rfl
  rw [apart, Reader.step_onto] at step
  obtain ⟨m, step', rfl⟩ := Option.map_eq_some_iff.mp step
  have run' : runAll Reader.step {} (read ++ [t]) = some m := by
    rw [runAll_append, run, Option.bind_some, runAll_singleton]
    exact step'
  cases here.advances whole_read chain_read step' with
  | goesOn lead' phase' same known =>
      subst same
      exact ⟨good, earlier, read ++ [t], List.append_assoc _ _ _, known, run'⟩
  | ends s same line known =>
      subst same line
      have reads : s.Reads read := by
        refine ⟨fun u member => whole_read u (List.mem_append_left _ member), ?_, run'⟩
        exact (chain_append.mp chain_read).1
      refine ⟨fun u member => ?_, (earlier ++ read) ++ [.newline], [], ?_, ⟨nofun, rfl⟩, rfl⟩
      · rcases List.mem_cons.mp member with rfl | inside
        · exact ⟨known, read, reads⟩
        · exact good u inside
      · exact (List.append_nil _).symm

theorem run (known : Reader.Known all r) (whole : ∀ u ∈ all ++ ts, u.Whole)
    (chain : Chain (all ++ ts) c) (run : runAll Reader.step r ts = some r') :
    Reader.Known (all ++ ts) r' := by
  induction ts generalizing all r with
  | nil =>
      cases run
      rw [List.append_nil]
      exact known
  | cons t ts ih =>
      rw [runAll_cons, Option.bind_eq_some_iff] at run
      obtain ⟨m, step, rest⟩ := run
      rw [← List.singleton_append, ← List.append_assoc] at whole chain ⊢
      refine ih (known.step (fun u member => whole u (List.mem_append_left _ member))
        (chain_append.mp chain).1 step) whole chain rest

end Reader.Known

/-- **The statements of a document that has been read are good.** -/
theorem good_of_layout? {s : List Char} {d : Document} (read : Document.layout? s = some d) :
    d.Good := by
  obtain ⟨ts, tokens, parsed⟩ := Option.bind_eq_some_iff.mp read
  obtain ⟨r, run, finish⟩ := Option.bind_eq_some_iff.mp parsed
  obtain ⟨-, chain, whole⟩ := tokens?_eq_some tokens
  have known : Reader.Known ts r := Reader.Known.start.run whole chain run
  rcases Reader.finish?_cases finish with ⟨lead, rfl⟩ | ⟨ss, step, rfl⟩
  · obtain ⟨good, earlier, read, rfl, here, -⟩ := known
    rw [lead] at here
    refine ⟨fun s member => good s (List.mem_reverse.mp member), read,
      fun t member => ?_, ?_, here.2⟩
    · exact ⟨whole t (List.mem_append_right _ member), here.1 t member⟩
    · exact (chain_append.mp chain).2
  · have line : (Token.newline).Whole := trivial
    have ended := @Reader.Known.step _ _ _ .newline ' ' known
      (fun u member => (List.mem_append.mp member).elim (whole u) fun last =>
        List.mem_singleton.mp last ▸ line)
      (chain_append.mpr ⟨chain, chain_singleton.mpr (line.cutBy trivial)⟩) step
    exact ⟨fun s member => ended.statements s (List.mem_reverse.mp member), [], nofun, trivial, rfl⟩

end Gatekeeper.Toml
