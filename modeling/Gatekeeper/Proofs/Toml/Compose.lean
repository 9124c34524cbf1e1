import Gatekeeper.Proofs.Toml.Statement

set_option autoImplicit false

/-!
# Writing statements anew

A document of good statements is read back from its text (`Document.Good.read`). Statements and
fields that are put together from good parts and a quoted string are good: a line that gives a key a
string (`Statement.good_entry`), a field that does (`Field.good_string`), an inline table in the
place of another one (`Statement.good_inline`), and a header (`Statement.good_header`).
-/

namespace Gatekeeper.Toml

/-! ## Whole documents -/

/-- The tokens of a statement are its text. -/
theorem Statement.Reads.text {s : Statement} {ts : List Token} (reads : s.Reads ts) :
    textOf ts ++ ['\n'] = s.render := by
  have kept := Reader.text_run reads.run
  rw [textOf_append] at kept
  simpa [Reader.text, Phase.text, Token.text] using kept.symm

/-- Good statements are read one after another. -/
theorem exists_tokens_statements (ss : List Statement) (good : ∀ s ∈ ss, s.Good) :
    ∃ ts, (∀ c, Chain ts c) ∧ textOf ts = ss.flatMap Statement.render ∧
      ∀ earlier, runAll Reader.step { statements := earlier } ts =
        some { statements := ss.reverse ++ earlier } := by
  induction ss with
  | nil => exact ⟨[], fun c => trivial, rfl, fun earlier => rfl⟩
  | cons s ss ih =>
      obtain ⟨us, reads⟩ := (good s List.mem_cons_self).reads
      obtain ⟨ts, chain, text, run⟩ := ih fun s member => good s (List.mem_cons_of_mem _ member)
      have line : Token.newline.Whole := trivial
      refine ⟨us ++ [.newline] ++ ts, fun c => ?_, ?_, fun earlier => ?_⟩
      · refine chain_append.mpr ⟨chain_append.mpr ⟨reads.chain, ?_⟩, chain c⟩
        exact chain_singleton.mpr (line.cutBy trivial)
      · rw [textOf_append, textOf_append, text, List.flatMap_cons, ← reads.text]
        rfl
      · have first : runAll Reader.step { statements := earlier } (us ++ [.newline]) =
            some { statements := s :: earlier } := by
          have alone := Reader.run_onto (r := {}) earlier (us ++ [.newline])
          rw [reads.run] at alone
          exact alone
        rw [runAll_append, first, Option.bind_some, run, List.reverse_cons, List.append_assoc]
        rfl

/-- Blanks, comments and line ends before a statement. -/
theorem run_lead {ts : List Token} (each : ∀ t ∈ ts, t.isFiller = true) (ss : List Statement)
    (lead : List Char) :
    runAll Reader.step ⟨ss, lead, .lead⟩ ts = some ⟨ss, (textOf ts).reverse ++ lead, .lead⟩ := by
  induction ts generalizing lead with
  | nil => rfl
  | cons t ts ih =>
      have first : Reader.step ⟨ss, lead, .lead⟩ t = some ⟨ss, t.text.reverse ++ lead, .lead⟩ := by
        simp only [Reader.step, each t List.mem_cons_self, if_true]
      rw [runAll_cons, first, Option.bind_some,
        ih fun u member => each u (List.mem_cons_of_mem _ member)]
      simp

/-- **A good document is read back from its text.** -/
theorem Document.Good.read {d : Document} (good : d.Good) : Document.layout? d.render = some d := by
  obtain ⟨ts, chain, text, run⟩ := exists_tokens_statements d.statements good.statements
  obtain ⟨us, each, chain', text'⟩ := good.rest
  have all : d.render = textOf (ts ++ us) := by
    rw [textOf_append, text, text']
    rfl
  have tokens : tokens? d.render = some (ts ++ us) := by
    rw [all]
    exact tokens?_textOf (chain_append.mpr ⟨chain _, chain'⟩)
  have read : runAll Reader.step {} (ts ++ us) =
      some ⟨d.statements.reverse, d.rest.reverse, .lead⟩ := by
    rw [runAll_append, run, Option.bind_some, List.append_nil,
      run_lead fun t member => (each t member).2, text', List.append_nil]
  rw [Document.layout?, tokens, Option.bind_some]
  change (runAll Reader.step {} (ts ++ us)).bind _ = _
  rw [read, Option.bind_some, Reader.finish?, List.reverse_reverse, List.reverse_reverse]

/-! ## Keys in their places -/

section Key

variable {key : Key} {first : List Char}

/-- A part of a key is neither blank nor punctuation. -/
theorem other_of_part? {t : Token} (part : (OpenKey.part? t).isSome = true) :
    t.isFiller = false ∧ ∀ c, t ≠ .mark c := by
  cases t with
  | word text => exact ⟨rfl, fun c same => nomatch same⟩
  | quoted text value multiline => exact ⟨rfl, fun c same => nomatch same⟩
  | _ => cases part

/-- What may stand in a key ends it only if it is a dot, and that does not. -/
theorem ne_mark_of_takes {t : Token} {c : Char} (takes : OpenKey.Takes t) (other : c ≠ '.') :
    t ≠ .mark c := by
  rintro rfl
  rcases takes with ⟨d, same⟩ | same | part
  · cases same
  · exact other (Token.mark.inj same)
  · cases part

/-- Tokens and a mark after them. -/
theorem whole_mark {ts : List Token} {c : Char} (whole : ∀ t ∈ ts, t.Whole) (mark : isMark c = true)
    (chain : Chain ts c) :
    (∀ t ∈ ts ++ [.mark c], t.Whole) ∧ ∀ d, Chain (ts ++ [.mark c]) d := by
  have last : (Token.mark c).Whole := mark
  refine ⟨fun t member => ?_,
    fun d => chain_append.mpr ⟨chain, chain_singleton.mpr (last.cutBy trivial)⟩⟩
  rcases List.mem_append.mp member with inside | same
  · exact whole t inside
  · exact List.mem_singleton.mp same ▸ last

/-- The key of a line and the equals sign after it. -/
theorem Key.Good.exists_entry (good : key.Good []) :
    ∃ ts : List Token, (∀ t ∈ ts, t.Whole) ∧ (∀ c, Chain ts c) ∧ textOf ts = key.render ++ ['='] ∧
      ∀ ss lead, runAll Reader.step ⟨ss, lead, .lead⟩ ts =
        some ⟨ss, lead, .value key [] (.before [])⟩ := by
  obtain ⟨t, ts, makes, text⟩ := good.read
  obtain ⟨whole, chain⟩ := whole_mark makes.whole (by decide : isMark '=' = true)
    (makes.chain '=' (by decide))
  refine ⟨(t :: ts) ++ [.mark '='], whole, chain, ?_, fun ss lead => ?_⟩
  · rw [textOf_append, ← text]
    rfl
  · obtain ⟨other, noMark⟩ := other_of_part? makes.part
    have begins : Reader.step ⟨ss, lead, .lead⟩ t =
        (OpenKey.step {} t).map fun k => ⟨ss, lead, .key k⟩ := by
      simp only [Reader.step, other, if_neg (noMark '['), Bool.false_eq_true, if_false]
    obtain ⟨k, finish, run⟩ := makes.run_phase .key begins fun k u _ takes => by
      simp only [Reader.step, if_neg (ne_mark_of_takes takes (by decide : '=' ≠ '.'))]
    rw [runAll_append, run, Option.bind_some, runAll_singleton]
    change k.finish?.map _ = _
    rw [finish]
    rfl

/-- A header of one bracket. -/
theorem Key.Good.exists_header (good : key.Good []) :
    ∃ ts : List Token, (∀ t ∈ ts, t.Whole) ∧ (∀ c, Chain ts c) ∧
      textOf ts = '[' :: key.render ++ [']'] ∧
      ∀ ss lead, runAll Reader.step ⟨ss, lead, .lead⟩ ts =
        some ⟨ss, lead, .tail (.header false key) []⟩ := by
  obtain ⟨t, ts, makes, text⟩ := good.read
  obtain ⟨whole, chain⟩ := whole_mark makes.whole (by decide : isMark ']' = true)
    (makes.chain ']' (by decide))
  have bracket : (Token.mark '[').Whole := (rfl : isMark '[' = true)
  refine ⟨.mark '[' :: ((t :: ts) ++ [.mark ']']), fun u member => ?_,
    fun c => ⟨bracket.cutBy trivial, chain c⟩, ?_, fun ss lead => ?_⟩
  · rcases List.mem_cons.mp member with rfl | inside
    · exact bracket
    · exact whole u inside
  · rw [textOf_cons, textOf_append, ← text]
    rfl
  · obtain ⟨other, noMark⟩ := other_of_part? makes.part
    have begins : Reader.step ⟨ss, lead, .bracket⟩ t =
        (OpenKey.step {} t).map fun k => ⟨ss, lead, .header false k⟩ := by
      simp only [Reader.step, if_neg (noMark '[')]
    obtain ⟨k, finish, run⟩ := makes.run_phase (.header false) begins fun k u _ takes => by
      simp only [Reader.step, if_neg (ne_mark_of_takes takes (by decide : ']' ≠ '.'))]
    have opens : Reader.step ⟨ss, lead, .lead⟩ (.mark '[') = some ⟨ss, lead, .bracket⟩ := rfl
    rw [runAll_cons, opens, Option.bind_some, runAll_append, run, Option.bind_some,
      runAll_singleton]
    change k.finish?.map _ = _
    rw [finish]
    rfl

/-- The key of a field and the equals sign after it. -/
theorem Key.Good.exists_field (filler : Filler first) (good : key.Good first) :
    ∃ ts : List Token, (∀ t ∈ ts, t.Whole) ∧ (∀ c, Chain ts c) ∧ textOf ts = key.render ++ ['='] ∧
      ∀ ss lead (ctx : Context), runAll Reader.step ⟨ss, lead, ctx.phase (.key {})⟩ ts =
        some ⟨ss, lead, ctx.phase (.value key [] (.before []))⟩ := by
  obtain ⟨t, ts, makes, text⟩ := good.read
  obtain ⟨us, each, chain', text'⟩ := filler
  obtain ⟨whole, chain⟩ := whole_mark makes.whole (by decide : isMark '=' = true)
    (makes.chain '=' (by decide))
  refine ⟨us ++ ((t :: ts) ++ [.mark '=']), fun u member => ?_,
    fun c => chain_append.mpr ⟨chain' _, chain c⟩, ?_, fun ss lead ctx => ?_⟩
  · exact (List.mem_append.mp member).elim (fun inside => (each u inside).1) (whole u)
  · rw [textOf_append, textOf_append, ← text, text', List.append_assoc]
    rfl
  · obtain ⟨other, noMark⟩ := other_of_part? makes.part
    have inside (k : OpenKey) (u : Token) (filler : (k.isFresh && u.isFiller) = false)
        (brace : u ≠ .mark '\x7d') (equals : u ≠ .mark '=') :
        Reader.step ⟨ss, lead, ctx.phase (.key k)⟩ u =
          (k.step u).map fun k => ⟨ss, lead, ctx.phase (.key k)⟩ := by
      change (ValueState.stepKey (some (ctx.frame [])) k u).map _ = _
      simp only [Context.frame, ValueState.stepKey, filler, if_neg brace, if_neg equals,
        Bool.false_eq_true, if_false]
      rw [Option.map_map]
      rfl
    obtain ⟨k, finish, run⟩ := makes.run_phase (fun k => ctx.phase (.key k))
      (inside _ t (by rw [other, Bool.and_false]) (noMark _) (noMark _)) fun k u started takes =>
        inside k u (by rw [started, Bool.false_and])
          (ne_mark_of_takes takes (by decide : '\x7d' ≠ '.'))
          (ne_mark_of_takes takes (by decide : '=' ≠ '.'))
    have fillers := run_fillers (fun u member => (each u member).2) [] ss lead ctx
    rw [text', List.append_nil] at fillers
    have equals (u : Token) (mark : u = .mark '=') :
        Reader.step ⟨ss, lead, ctx.phase (.key k)⟩ u =
          some ⟨ss, lead, ctx.phase (.value key [] (.before []))⟩ := by
      have other : u.isFiller = false := mark ▸ rfl
      have noBrace : u ≠ .mark '\x7d' := mark ▸ by decide
      change (ValueState.stepKey (some (ctx.frame [])) k u).map _ = _
      simp only [Context.frame, ValueState.stepKey, other, Bool.and_false, Bool.false_eq_true,
        if_false, if_neg noBrace, if_pos mark, finish]
      rfl
    rw [runAll_append, fillers, Option.bind_some, runAll_append, run, Option.bind_some,
      runAll_singleton, equals _ rfl]

end Key

/-! ## New statements and fields -/

/-- Whole tokens one after another. -/
theorem whole_append {ts us : List Token} (whole : ∀ t ∈ ts, t.Whole) (whole' : ∀ t ∈ us, t.Whole) :
    ∀ t ∈ ts ++ us, t.Whole := by
  intro t member
  exact (List.mem_append.mp member).elim (whole t) (whole' t)

theorem whole_cons {t : Token} {ts : List Token} (whole : t.Whole) (whole' : ∀ u ∈ ts, u.Whole) :
    ∀ u ∈ t :: ts, u.Whole := by
  intro u member
  rcases List.mem_cons.mp member with rfl | inside
  · exact whole
  · exact whole' u inside

variable {lead before after tail : List Char} {key : Key}

/-- The tokens of a line follow what stands before it. -/
theorem Statement.exists_reads {s : Statement} {ts : List Token} (filler : Filler s.lead)
    (whole : ∀ t ∈ ts, t.Whole) (chain : Chain ts '\n')
    (run : ∀ ss lead, runAll Reader.step ⟨ss, lead, .lead⟩ ts =
      some ⟨ss, lead, .tail s.body s.tail.reverse⟩) : ∃ ts, s.Reads ts := by
  obtain ⟨fs, each, chain', text⟩ := filler
  refine ⟨fs ++ ts, whole_append (fun t member => (each t member).1) whole,
    chain_append.mpr ⟨chain' _, chain⟩, ?_⟩
  rw [runAll_append, runAll_append, run_lead fun t member => (each t member).2,
    Option.bind_some, run, Option.bind_some, runAll_singleton, text]
  simp [Reader.step, Reader.stepTail, Reader.finishStatement]

/-- **A line that gives a key a string is good.** -/
theorem Statement.good_entry (filler : Filler lead) (good : key.Good []) (s : List Char) :
    Statement.Good
      ⟨lead, .entry key [' '] (.plain (quote s) (.string (String.ofList s))), []⟩ where
  lead := filler
  key := ⟨[], good, blank_nil, fun _ => rfl⟩
  value k b w same := by
    cases same
    exact fun fields same => nomatch same
  reads := by
    obtain ⟨ts, whole, chain, text, run⟩ := good.exists_entry
    obtain ⟨multiline, quoted⟩ := whole_quote s
    have space : (Token.space ' ').Whole := .inl rfl
    -- the line end is no part of a string, so it cuts the string off
    have line : (Token.quoted (quote s) s multiline).CutBy '\n' :=
      quoted.cutBy (by decide : ¬IsQuote '\n')
    refine @Statement.exists_reads _ (ts ++ [.space ' ', .quoted (quote s) s multiline]) filler
      (whole_append whole (whole_cons space (whole_cons quoted nofun)))
      (chain_append.mpr ⟨chain _, space.cutBy trivial, chain_singleton.mpr line⟩) fun ss lead => ?_
    rw [runAll_append, run]
    rfl

/-- What stands after a statement. -/
theorem run_trail {ts : List Token}
    (each : ∀ t ∈ ts, (∃ c, t = .space c) ∨ ∃ text, t = .comment text)
    (ss : List Statement) (lead : List Char) (body : Body) (text : List Char) :
    runAll Reader.step ⟨ss, lead, .tail body text⟩ ts =
      some ⟨ss, lead, .tail body ((textOf ts).reverse ++ text)⟩ := by
  induction ts generalizing text with
  | nil => rfl
  | cons t ts ih =>
      have first : Reader.step ⟨ss, lead, .tail body text⟩ t =
          some ⟨ss, lead, .tail body (t.text.reverse ++ text)⟩ := by
        rcases each t List.mem_cons_self with ⟨c, rfl⟩ | ⟨s, rfl⟩ <;> rfl
      rw [runAll_cons, first, Option.bind_some,
        ih fun u member => each u (List.mem_cons_of_mem _ member)]
      simp

/-- Blanks before a value. -/
theorem run_blanks (s : List Char) (ss : List Statement) (lead : List Char) (ahead : List Char) :
    runAll Reader.step ⟨ss, lead, .value key [] (.before ahead)⟩ (blanks s) =
      some ⟨ss, lead, .value key [] (.before (s.reverse ++ ahead))⟩ := by
  induction s generalizing ahead with
  | nil => rfl
  | cons c s ih =>
      rw [List.reverse_cons, List.append_assoc]
      exact ih (c :: ahead)

/-- **A line with an inline table in the place of another one is good.** -/
theorem Statement.good_inline {t : Inline} (filler : Filler lead) (good : key.Good [])
    (value : (Written.inline t).Good before tail) :
    Statement.Good ⟨lead, .entry key before (.inline t), tail⟩ where
  lead := filler
  key := ⟨[], good, blank_nil, fun _ => rfl⟩
  value k b w same := by
    cases same
    exact value
  reads := by
    obtain ⟨blank, table, us, each, chain', text'⟩ := value
    obtain ⟨ts, whole, chain, -, run⟩ := good.exists_entry
    obtain ⟨vs, whole_vs, chain_vs, -, run_vs⟩ := table.read
    have whole_us : ∀ t ∈ us, t.Whole := fun t member => (each t member).1
    refine @Statement.exists_reads _ (ts ++ (blanks before ++ (vs ++ us))) filler
      (whole_append whole (whole_append blank.whole (whole_append whole_vs whole_us)))
      (chain_append.mpr ⟨chain _, chain_append.mpr ⟨blank.chain _, chain_append.mpr
        ⟨chain_vs _, chain'⟩⟩⟩) fun ss lead => ?_
    rw [runAll_append, run, Option.bind_some, runAll_append, run_blanks, Option.bind_some,
      runAll_append, run_vs, Option.bind_some, run_trail fun t member => (each t member).2, text']
    simp

/-- **A header is good.** -/
theorem Statement.good_header (filler : Filler lead) (good : key.Good []) :
    Statement.Good ⟨lead, .header false key, []⟩ where
  lead := filler
  key := ⟨[], good, blank_nil, fun _ => rfl⟩
  value k b w same := by cases same
  reads := by
    obtain ⟨ts, whole, chain, -, run⟩ := good.exists_header
    exact Statement.exists_reads filler whole (chain _) run

/-- Blanks, comments and line ends after the value of a field. -/
theorem run_fillers_after {ts : List Token} (each : ∀ t ∈ ts, t.isFiller = true) (p : Placed)
    (ss : List Statement) (lead : List Char) (ctx : Context) :
    runAll Reader.step ⟨ss, lead, ctx.phase (.value key [] (.after p))⟩ ts =
      some ⟨ss, lead, ctx.phase (.value key []
        (.after { p with after := (textOf ts).reverse ++ p.after }))⟩ := by
  induction ts generalizing p with
  | nil => rfl
  | cons t ts ih =>
      have first : Reader.step ⟨ss, lead, ctx.phase (.value key [] (.after p))⟩ t =
          some ⟨ss, lead, ctx.phase (.value key []
            (.after { p with after := t.text.reverse ++ p.after }))⟩ := by
        have filler := each t List.mem_cons_self
        cases t with
        | space c => rfl
        | newline => rfl
        | comment text => rfl
        | _ => cases filler
      rw [runAll_cons, first, Option.bind_some,
        ih fun u member => each u (List.mem_cons_of_mem _ member)]
      simp

/-- **A field that gives a key a string is good.** -/
theorem Field.good_string {first : List Char} (filler : Filler first) (good : key.Good first)
    (s : List Char) (after_ : Filler after) :
    Field.Good ⟨key, [' '], quote s, .string (String.ofList s), after⟩ where
  key := ⟨first, filler, good⟩
  reads := by
    obtain ⟨ts, whole, chain, -, run⟩ := good.exists_field filler
    have ends := after_.isEnd (by decide : IsEnd ',')
    obtain ⟨us, each, chain', rfl⟩ := after_
    obtain ⟨multiline, quoted⟩ := whole_quote s
    have space : (Token.space ' ').Whole := .inl rfl
    have cut : Chain (.quoted (quote s) s multiline :: us) ',' :=
      ⟨quoted.cutBy ends.2, chain' _⟩
    refine ⟨ts ++ (.space ' ' :: .quoted (quote s) s multiline :: us),
      whole_append whole (whole_cons space (whole_cons quoted fun t member => (each t member).1)),
      chain_append.mpr ⟨chain _, space.cutBy trivial, cut⟩,
      .value key [] (.after
        ⟨[' '], .plain (quote s) (.string (String.ofList s)), (textOf us).reverse⟩),
      ends_of_ready rfl ?_, fun ss lead ctx => ?_⟩
    · simp [Placed.field?, Written.value?]
    · rw [runAll_append, run, Option.bind_some]
      have rest := @run_fillers_after key us (fun t member => (each t member).2)
        ⟨[' '], .plain (quote s) (.string (String.ofList s)), []⟩ ss lead ctx
      rw [List.append_nil] at rest
      exact rest

end Gatekeeper.Toml
