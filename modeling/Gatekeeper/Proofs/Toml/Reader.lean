import Gatekeeper.Proofs.Toml.Token
import Gatekeeper.Toml.Reader

set_option autoImplicit false

/-!
# Reading loses nothing

What the reader has collected is, written out, what it has read (`Reader.text_run`): every token is
kept in the statement, the key or the value that it belongs to. So a document that has been read is
written as it was, but for the line ends and the byte order mark that the tokens leave out and a
line end after the last statement (`render_of_layout?`).
-/

namespace Gatekeeper.Toml

/-! ## What has been read -/

/-- A part of a key with the dot after it. -/
def dotted (p : KeyPart) : List Char := p.render ++ ['.']

/-- What has been read of a key. -/
def OpenKey.text (k : OpenKey) : List Char :=
  k.parts.reverse.flatMap dotted ++
    match k.part with
    | none => k.before.reverse
    | some (text, _) => k.before.reverse ++ text ++ k.after.reverse

/-- The fields of an inline table that have been read, latest first, each with the comma after
it. -/
def fieldsText (fields : List Field) : List Char :=
  fields.reverse.flatMap fun f => f.render ++ [',']

/-- What has been read of an array, or of an inline table up to the value of a field. -/
def Frame.text : Frame → List Char
  | array ahead text _ => ahead.reverse ++ text.reverse
  | table ahead fields key => ahead.reverse ++ '\x7b' :: fieldsText fields ++ key.render ++ ['=']

/-- What has been read of several arrays and inline tables, innermost first. -/
def framesText (frames : List Frame) : List Char := frames.reverse.flatMap Frame.text

/-- What has been read of a part of a value. -/
def ValueState.text : ValueState → List Char
  | before blanks => blanks.reverse
  | word blanks text => blanks.reverse ++ text.reverse
  | date blanks text => blanks.reverse ++ text.reverse ++ [' ']
  | after p => p.text.reverse
  | key k => k.text

/-- What has been read of a value. In front of a field the innermost table has no key yet. -/
def valueText : List Frame → ValueState → List Char
  | .table ahead fields _ :: rest, .key k =>
    framesText rest ++ (ahead.reverse ++ '\x7b' :: fieldsText fields) ++ k.text
  | frames, state => framesText frames ++ state.text

/-- What has been read of a statement. -/
def Phase.text : Phase → List Char
  | lead => []
  | bracket => ['[']
  | header array k => (if array then ['[', '['] else ['[']) ++ k.text
  | closing name => '[' :: '[' :: name.render ++ [']']
  | key k => k.text
  | value name frames state => name.render ++ '=' :: valueText frames state
  | tail body text => body.render ++ text.reverse

/-- What has been read. -/
def Reader.text (r : Reader) : List Char :=
  r.statements.reverse.flatMap Statement.render ++ r.lead.reverse ++ r.phase.text

/-! ## Keys -/

/-- Parts with a mark between them are parts with a mark after each but the last. -/
theorem intercalate_append_singleton (c : Char) (parts : List (List Char)) (last : List Char) :
    [c].intercalate (parts ++ [last]) = parts.flatMap (· ++ [c]) ++ last := by
  induction parts with
  | nil => simp [List.intercalate]
  | cons p parts ih =>
      rw [List.flatMap_cons, List.append_assoc, ← ih]
      cases parts <;> simp [List.intercalate, List.intersperse]

namespace OpenKey

variable {k k' : OpenKey} {t : Token}

theorem text_of_part? {text : List Char} {name : String} (part : part? t = some (text, name)) :
    t.text = text := by
  unfold part? at part
  split at part
  · split at part <;> cases part
    rfl
  · cases part
    rfl
  · cases part

/-- A key is complete once the part at hand has come. -/
theorem finish?_eq_some_iff {key : Key} : k.finish? = some key ↔
    ∃ text name, k.part = some (text, name) ∧
      key = k.parts.reverse ++ [⟨k.before.reverse, text, name, k.after.reverse⟩] := by
  obtain ⟨parts, before, part, after⟩ := k
  cases part with
  | none => simp [finish?]
  | some p =>
      obtain ⟨text, name⟩ := p
      simp [finish?, eq_comm]

theorem render_of_finish? {key : Key} (finish : k.finish? = some key) : key.render = k.text := by
  obtain ⟨text, name, part, rfl⟩ := finish?_eq_some_iff.mp finish
  rw [Key.render, List.map_append, List.map_singleton, intercalate_append_singleton,
    List.flatMap_map, OpenKey.text, part]
  rfl

/-- Of a key that has not come yet only blanks may have been read. -/
theorem text_of_isFresh (fresh : k.isFresh = true) : k.text = k.before.reverse := by
  rw [isFresh, Bool.and_eq_true, List.isEmpty_iff, Option.isNone_iff_eq_none] at fresh
  rw [OpenKey.text, fresh.1, fresh.2]
  rfl

theorem text_step (step : k.step t = some k') : k'.text = k.text ++ t.text := by
  obtain ⟨parts, before, part, after⟩ := k
  cases part with
  | none =>
      have begins (h : (part? t).map (fun p => (⟨parts, before, some p, []⟩ : OpenKey)) = some k') :
          k'.text = text ⟨parts, before, none, after⟩ ++ t.text := by
        obtain ⟨⟨text, name⟩, part, rfl⟩ := Option.map_eq_some_iff.mp h
        rw [text_of_part? part]
        simp [OpenKey.text]
      cases t with
      | space c =>
          cases step
          simp [OpenKey.text, Token.text]
      | _ => exact begins step
  | some p =>
      cases t with
      | space c =>
          cases step
          simp [OpenKey.text, Token.text]
      | mark c =>
          unfold OpenKey.step at step
          dsimp only at step
          split at step
          · next dot =>
            cases dot
            obtain ⟨key, finish, rfl⟩ := Option.map_eq_some_iff.mp step
            cases finish
            simp [OpenKey.text, dotted, KeyPart.render, Token.text]
          · next blank => cases blank
          · cases step
      | _ => cases step

end OpenKey

/-! ## Values -/

@[simp] theorem Written.text_plain (text : List Char) (v : Value) :
    (Written.plain text v).text = text := rfl

@[simp] theorem Written.text_inline (t : Inline) : (Written.inline t).text = t.render := rfl

/-- Only the key of a field is not written behind what is open. -/
theorem valueText_eq (frames : List Frame) (state : ValueState) (other : ∀ k, state ≠ .key k) :
    valueText frames state = framesText frames ++ state.text := by
  unfold valueText
  split
  · exact absurd rfl (other _)
  · rfl

@[simp] theorem valueText_before (frames : List Frame) (blanks : List Char) :
    valueText frames (.before blanks) = framesText frames ++ blanks.reverse :=
  valueText_eq _ _ fun _ same => nomatch same

@[simp] theorem valueText_word (frames : List Frame) (blanks text : List Char) :
    valueText frames (.word blanks text) = framesText frames ++ (blanks.reverse ++ text.reverse) :=
  valueText_eq _ _ fun _ same => nomatch same

@[simp] theorem valueText_date (frames : List Frame) (blanks text : List Char) :
    valueText frames (.date blanks text) =
      framesText frames ++ (blanks.reverse ++ text.reverse ++ [' ']) :=
  valueText_eq _ _ fun _ same => nomatch same

@[simp] theorem valueText_after (frames : List Frame) (p : Placed) :
    valueText frames (.after p) = framesText frames ++ p.text.reverse :=
  valueText_eq _ _ fun _ same => nomatch same

@[simp] theorem valueText_key (ahead : List Char) (fields : List Field) (old : Key)
    (rest : List Frame) (k : OpenKey) :
    valueText (.table ahead fields old :: rest) (.key k) =
      framesText rest ++ (ahead.reverse ++ '\x7b' :: fieldsText fields) ++ k.text := rfl

theorem text_placed (key : Key) (frames : List Frame) (p : Placed) :
    (Phase.placed key frames p).text =
      key.render ++ '=' :: framesText frames ++ p.text.reverse := by
  cases frames with
  | nil => simp [Phase.placed, Phase.text, Body.render, Placed.text, framesText]
  | cons fr rest => simp [Phase.placed, Phase.text]

@[simp] theorem framesText_nil : framesText [] = [] := rfl

@[simp] theorem framesText_cons (fr : Frame) (rest : List Frame) :
    framesText (fr :: rest) = framesText rest ++ fr.text := by
  rw [framesText, List.reverse_cons, List.flatMap_append]
  simp [framesText]

@[simp] theorem fieldsText_cons (f : Field) (fields : List Field) :
    fieldsText (f :: fields) = fieldsText fields ++ f.render ++ [','] := by
  rw [fieldsText, List.reverse_cons, List.flatMap_append]
  simp [fieldsText]

/-- An inline table that is closed, written out. -/
theorem render_inline (fields : List Field) (last : List Char) :
    Inline.render ⟨fields.reverse, !fields.isEmpty, last⟩ =
      '\x7b' :: fieldsText fields ++ last ++ ['\x7d'] := by
  cases fields with
  | nil => simp [Inline.render, fieldsText]
  | cons f fields =>
      simp only [Inline.render, List.reverse_cons, List.map_append, List.map_singleton,
        intercalate_append_singleton, List.flatMap_map, fieldsText, List.flatMap_append]
      simp

/-- The same where no comma comes after the last field. -/
theorem render_inline_last (f : Field) (fields : List Field) :
    Inline.render ⟨(f :: fields).reverse, false, []⟩ =
      '\x7b' :: fieldsText fields ++ f.render ++ ['\x7d'] := by
  simp only [Inline.render, List.reverse_cons, List.map_append, List.map_singleton,
    intercalate_append_singleton, List.flatMap_map, fieldsText]
  simp

namespace ValueState

variable {key : Key} {frames : List Frame} {state state' : ValueState} {t : Token} {e : Effect}

theorem text_of_word? {blanks text after : List Char} {p : Placed}
    (word : word? blanks text after = some p) :
    p.text.reverse = blanks.reverse ++ text.reverse ++ after.reverse := by
  obtain ⟨v, -, rfl⟩ := Option.map_eq_some_iff.mp word
  simp [Placed.text]

/-- A word that is complete has the same text. -/
theorem text_ready? (ready : state.ready? t = some state') :
    valueText frames state' = valueText frames state := by
  unfold ready? at ready
  split at ready
  · cases ready
    rfl
  · cases ready
    rfl
  · split at ready
    · cases ready
      rfl
    · obtain ⟨p, word, rfl⟩ := Option.map_eq_some_iff.mp ready
      simp [text_of_word? word]
  · cases ready
    rfl
  · obtain ⟨p, word, rfl⟩ := Option.map_eq_some_iff.mp ready
    simp [text_of_word? word]
  · cases ready
    rfl

/-- Whether a token is kept by what it does: what has been read after it is what had been read of
the value, then the token. -/
def Keeps (key : Key) (frames : List Frame) (read : List Char) (e : Effect) (t : Token) : Prop :=
  (e.apply key frames).text = key.render ++ '=' :: (read ++ t.text)

theorem keeps_start {depth : Nat} {blanks : List Char} (step : start depth blanks t = some e) :
    Keeps key frames (framesText frames ++ blanks.reverse) e t := by
  unfold start at step
  split at step
  · cases step
    simp [Keeps, Effect.apply, Phase.text, Token.text]
  · cases step
    simp [Keeps, Effect.apply, Phase.text, Token.text]
  · cases step
    simp [Keeps, Effect.apply, text_placed, Placed.text, Token.text]
  · split at step
    · cases step
    split at step
    · next bracket =>
      cases step
      simp [Keeps, Effect.apply, Phase.text, Token.text, Frame.text]
    · split at step
      · next brace =>
        cases step
        rw [beq_iff_eq] at brace
        simp [Keeps, Effect.apply, Phase.text, OpenKey.text, fieldsText, Token.text, brace]
      · cases step
  · cases step

/-- What a token does before a value: it closes an array, or it is put with the blanks, or it begins
the value. Outside of arrays only spaces are put with the blanks. -/
theorem stepBefore_cases {top : Option Frame} {blanks : List Char} {depth : Nat}
    (step : stepBefore top depth blanks t = some e) :
    (∃ ahead text items, top = some (.array ahead text items) ∧ t = .mark ']' ∧
      e = endArray ahead (']' :: blanks ++ text) items) ∨
    ((top = none → ∃ c, t = .space c) ∧ e = .stay (.before (t.text.reverse ++ blanks))) ∨
    start depth blanks t = some e := by
  unfold stepBefore at step
  split at step
  · next ahead text items =>
    split at step
    · next closes =>
      cases step
      exact .inl ⟨ahead, text, items, rfl, closes, rfl⟩
    · split at step
      · cases step
        exact .inr (.inl ⟨nofun, rfl⟩)
      · exact .inr (.inr step)
  · split at step
    · next c =>
      cases step
      exact .inr (.inl ⟨fun _ => ⟨c, rfl⟩, rfl⟩)
    · exact .inr (.inr step)

theorem keeps_stepBefore {blanks : List Char} {depth : Nat}
    (step : stepBefore frames.head? depth blanks t = some e) :
    Keeps key frames (framesText frames ++ blanks.reverse) e t := by
  rcases stepBefore_cases step with ⟨ahead, text, items, top, rfl, rfl⟩ | ⟨_, rfl⟩ | started
  · obtain ⟨rest, rfl⟩ := List.head?_eq_some_iff.mp top
    simp [Keeps, Effect.apply, endArray, text_placed, Placed.text, Token.text, Frame.text]
  · simp [Keeps, Effect.apply, Phase.text]
  · exact keeps_start started

theorem keeps_stepAfter {p : Placed} (step : stepAfter frames.head? p t = some e) :
    Keeps key frames (framesText frames ++ p.text.reverse) e t := by
  unfold stepAfter at step
  split at step
  · cases step
    simp [Keeps, Effect.apply, Phase.text, Placed.text]
  split at step
  · cases step
  · next ahead text items top =>
    obtain ⟨v, -, step⟩ := Option.bind_eq_some_iff.mp step
    obtain ⟨rest, rfl⟩ := List.head?_eq_some_iff.mp top
    split at step
    · cases step
      simp [Keeps, Effect.apply, Phase.text, Token.text, Frame.text]
    · cases step
      simp [Keeps, Effect.apply, endArray, text_placed, Placed.text, Token.text,
        Frame.text]
    · cases step
  · next ahead fields k top =>
    obtain ⟨f, field, step⟩ := Option.bind_eq_some_iff.mp step
    obtain ⟨rest, rfl⟩ := List.head?_eq_some_iff.mp top
    obtain ⟨v, -, rfl⟩ := Option.map_eq_some_iff.mp field
    split at step
    · cases step
      simp [Keeps, Effect.apply, Phase.text, OpenKey.text, Token.text, Frame.text,
        Field.render, Placed.text]
    · cases step
      rw [Keeps, Effect.apply, text_placed, Placed.text, Written.text_inline, render_inline_last]
      simp [Token.text, Frame.text, Field.render, Placed.text]
    · cases step

theorem keeps_stepKey {k : OpenKey} (step : stepKey frames.head? k t = some e) :
    Keeps key frames (valueText frames (.key k)) e t := by
  unfold stepKey at step
  split at step
  · next ahead fields old top =>
    obtain ⟨rest, rfl⟩ := List.head?_eq_some_iff.mp top
    split at step
    · next filler =>
      cases step
      rw [Bool.and_eq_true] at filler
      have fresh : OpenKey.isFresh { k with before := t.text.reverse ++ k.before } = true :=
        filler.1
      rw [Keeps, Effect.apply, Phase.text, valueText_key, valueText_key,
        OpenKey.text_of_isFresh fresh, OpenKey.text_of_isFresh filler.1]
      simp
    split at step
    · next brace =>
      subst brace
      split at step
      · next fresh =>
        cases step
        rw [Keeps, Effect.apply, text_placed, Placed.text, Written.text_inline, render_inline,
          valueText_key, OpenKey.text_of_isFresh fresh]
        simp [Token.text]
      · cases step
    split at step
    · next equals =>
      subst equals
      obtain ⟨name, finish, rfl⟩ := Option.map_eq_some_iff.mp step
      simp [Keeps, Effect.apply, Phase.text, Token.text, Frame.text,
        OpenKey.render_of_finish? finish]
    · obtain ⟨k', next, rfl⟩ := Option.map_eq_some_iff.mp step
      simp [Keeps, Effect.apply, Phase.text, OpenKey.text_step next]
  · cases step

/-- **A token in a value is kept by what it does.** -/
theorem keeps_step (step : state.step frames.head? frames.length t = some e) :
    Keeps key frames (valueText frames state) e t := by
  cases state with
  | before blanks =>
      rw [valueText_before]
      exact keeps_stepBefore step
  | word blanks text =>
      unfold ValueState.step stepWord at step
      dsimp only at step
      split at step <;> cases step <;> simp [Keeps, Effect.apply, Phase.text, Token.text]
  | date blanks text =>
      unfold ValueState.step stepDate at step
      dsimp only at step
      split at step <;> cases step
      simp [Keeps, Effect.apply, Phase.text, Token.text]
  | after p =>
      rw [valueText_after]
      exact keeps_stepAfter step
  | key k => exact keeps_stepKey step

end ValueState

/-! ## Statements -/

namespace Reader

variable {r r' : Reader} {t : Token}

theorem text_stepTail {body : Body} {text : List Char} (step : r.stepTail body text t = some r') :
    r'.text = r.statements.reverse.flatMap Statement.render ++ r.lead.reverse ++
      (body.render ++ text.reverse) ++ t.text := by
  unfold stepTail at step
  split at step <;> cases step
  · simp [Reader.text, finishStatement, Phase.text, Statement.render, Token.text]
  · simp [Reader.text, Phase.text, Token.text]
  · simp [Reader.text, Phase.text, Token.text]

/-- **Every token is kept.** -/
theorem text_step (step : r.step t = some r') : r'.text = r.text ++ t.text := by
  obtain ⟨statements, lead, phase⟩ := r
  have first (k : OpenKey) (h : OpenKey.step {} t = some k) : k.text = t.text :=
    OpenKey.text_step h
  cases phase with
  | lead =>
      unfold Reader.step at step
      dsimp only at step
      split at step
      · cases step
        simp [Reader.text, Phase.text]
      split at step
      · next bracket =>
        cases step
        simp [Reader.text, Phase.text, bracket, Token.text]
      · obtain ⟨k, begun, rfl⟩ := Option.map_eq_some_iff.mp step
        simp [Reader.text, Phase.text, first k begun]
  | bracket =>
      unfold Reader.step at step
      dsimp only at step
      split at step
      · next bracket =>
        cases step
        simp [Reader.text, Phase.text, bracket, Token.text, OpenKey.text]
      · obtain ⟨k, begun, rfl⟩ := Option.map_eq_some_iff.mp step
        simp [Reader.text, Phase.text, first k begun]
  | header array k =>
      unfold Reader.step at step
      dsimp only at step
      split at step
      · next bracket =>
        obtain ⟨key, finish, rfl⟩ := Option.map_eq_some_iff.mp step
        cases array <;> simp [Reader.text, Phase.text, Body.render, bracket, Token.text,
          OpenKey.render_of_finish? finish]
      · obtain ⟨k', next, rfl⟩ := Option.map_eq_some_iff.mp step
        simp [Reader.text, Phase.text, OpenKey.text_step next]
  | closing key =>
      unfold Reader.step at step
      dsimp only at step
      split at step
      · next bracket =>
        cases step
        simp [Reader.text, Phase.text, Body.render, bracket, Token.text]
      · cases step
  | key k =>
      unfold Reader.step at step
      dsimp only at step
      split at step
      · next equals =>
        obtain ⟨key, finish, rfl⟩ := Option.map_eq_some_iff.mp step
        simp [Reader.text, Phase.text, equals, Token.text, OpenKey.render_of_finish? finish]
      · obtain ⟨k', next, rfl⟩ := Option.map_eq_some_iff.mp step
        simp [Reader.text, Phase.text, OpenKey.text_step next]
  | value key frames state =>
      obtain ⟨state', ready, step⟩ := Option.bind_eq_some_iff.mp step
      split at step
      · next p _ =>
        rw [text_stepTail step]
        have same : valueText [] (.after p) = valueText [] state := ValueState.text_ready? ready
        rw [valueText_after] at same
        simp [Reader.text, Phase.text, Body.render, ← same, Placed.text]
      · obtain ⟨e, effect, rfl⟩ := Option.map_eq_some_iff.mp step
        have keeps : ValueState.Keeps key frames _ e t := ValueState.keeps_step effect
        rw [ValueState.text_ready? ready] at keeps
        rw [Reader.text, show (e.apply key frames).text = _ from keeps]
        simp [Reader.text, Phase.text]
  | tail body text =>
      rw [text_stepTail step]
      simp [Reader.text, Phase.text]

/-- **All tokens are kept.** -/
theorem text_run {ts : List Token} (run : runAll Reader.step r ts = some r') :
    r'.text = r.text ++ textOf ts := by
  induction ts generalizing r with
  | nil =>
      cases run
      simp
  | cons t ts ih =>
      rw [runAll_cons, Option.bind_eq_some_iff] at run
      obtain ⟨m, step, rest⟩ := run
      rw [ih rest, text_step step, textOf_cons, List.append_assoc]

/-- At the end of the tokens a statement is complete as if a line end came. -/
theorem finish?_cases {d : Document} (finish : r.finish? = some d) :
    (r.phase = .lead ∧ d = ⟨r.statements.reverse, r.lead.reverse⟩) ∨
      ∃ ss, r.step .newline = some { statements := ss } ∧ d = ⟨ss.reverse, []⟩ := by
  obtain ⟨statements, lead, phase⟩ := r
  unfold finish? at finish
  dsimp only at finish
  split at finish
  · cases finish
    exact .inl ⟨rfl, rfl⟩
  · cases finish
    exact .inr ⟨_, rfl, rfl⟩
  · next key state =>
    split at finish
    · next p ready =>
      cases finish
      refine .inr ⟨_, ?_, rfl⟩
      change (state.ready? .newline).bind _ = _
      rw [ready]
      rfl
    · cases finish
  · cases finish

end Reader

/-- **A document that has been read is written as it was**, with a line end after the last
statement. -/
theorem render_of_layout? {s : List Char} {d : Document} (read : Document.layout? s = some d) :
    d.render = normalize s ∨ d.render = normalize s ++ ['\n'] := by
  obtain ⟨ts, tokens, parsed⟩ := Option.bind_eq_some_iff.mp read
  obtain ⟨r, run, finish⟩ := Option.bind_eq_some_iff.mp parsed
  have text : r.text = normalize s := by
    rw [Reader.text_run run, (tokens?_eq_some tokens).1]
    rfl
  rcases Reader.finish?_cases finish with ⟨lead, rfl⟩ | ⟨ss, step, rfl⟩
  · left
    rw [← text, Reader.text, lead]
    simp [Document.render, Phase.text]
  · right
    rw [← text, ← show Token.newline.text = ['\n'] from rfl, ← Reader.text_step step]
    simp [Document.render, Reader.text, Phase.text]

end Gatekeeper.Toml
