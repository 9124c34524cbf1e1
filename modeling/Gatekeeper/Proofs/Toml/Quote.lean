import Gatekeeper.Proofs.Text.Blank
import Gatekeeper.Proofs.Toml.Token
import Gatekeeper.Toml.Quote

set_option autoImplicit false

/-!
# Reading undoes quoting

Whatever a string contains, it is written as one token that stands for it (`whole_quote`), and a
name as one token that may be a part of a key (`part?_ofName`). A quotation spells the characters of
the string one by one (`Spells`), and what the automaton makes of each of them does not depend on
those before, but for quotation marks: fewer than three in a row are part of the string, and up to
two of them may stand before the closing ones.
-/

namespace Gatekeeper.Toml

open Text

/-! ## Characters -/

/-- How a quotation may write a character: as it is, as a mark among others that do not end the
string, or as an escape. -/
inductive Spells (q : Quotation) : Char → List Char → Prop
  | plain (c : Char) (other : c ≠ q.delimiter) (noEscape : c = '\x5c' → q.delimiter ≠ '\x22')
      (admitted : isPrintable c = true ∨ c = '\n' ∧ q.multiline = true) : Spells q c [c]
  | mark (multiline : q.multiline = true) : Spells q q.delimiter [q.delimiter]
  | escape (c e : Char) (basic : q.delimiter = '\x22') (stands : escaped? e = some c) :
      Spells q c ['\x5c', e]
  | code (c : Char) (basic : q.delimiter = '\x22') (short : c.toNat < 128) :
      Spells q c
        ['\x5c', 'u', '0', '0', upperHexDigit (c.toNat / 16), upperHexDigit (c.toNat % 16)]

namespace Quotation

/-- What is no control character may stand in strings. -/
theorem isPrintable_of_isControl {c : Char} (no : isControl c = false) :
    isPrintable c = true ∨ c = '\n' := by
  by_cases line : c = '\n'
  · exact .inr line
  · refine .inl ?_
    simp only [isControl, Bool.or_eq_false_iff, Bool.and_eq_false_iff, decide_eq_false_iff_not,
      bne_eq_false_iff_eq, line, or_false, beq_eq_false_iff_ne, Nat.not_lt] at no
    simp only [isPrintable, Bool.or_eq_true, beq_iff_eq, Bool.and_eq_true, decide_eq_true_eq,
      bne_iff_ne, ne_eq]
    rcases no.1 with big | tab
    · exact .inr ⟨big, no.2⟩
    · exact .inl tab

/-- A control character has a code of two digits. -/
theorem toNat_lt_of_isControl {c : Char} (control : isControl c = true) : c.toNat < 128 := by
  simp only [isControl, Bool.or_eq_true, Bool.and_eq_true, decide_eq_true_eq, beq_iff_eq] at control
  omega

variable {multiline : Bool} {c : Char}

/-- How a basic string writes a character that is neither a quotation mark nor a backslash. -/
theorem spells_escapeChar (mark : c ≠ '\x22') (backslash : c ≠ '\x5c') :
    Spells ⟨'\x22', multiline⟩ c (escapeChar multiline c) := by
  unfold escapeChar
  split
  · next h => exact .escape c 'b' rfl (by rw [beq_iff_eq.mp h]; rfl)
  split
  · next h => exact .escape c 't' rfl (by rw [beq_iff_eq.mp h]; rfl)
  split
  · next h => exact .escape c 'f' rfl (by rw [beq_iff_eq.mp h]; rfl)
  split
  · next h => exact .escape c 'r' rfl (by rw [beq_iff_eq.mp h]; rfl)
  split
  · next h =>
    have line : c = '\n' := beq_iff_eq.mp h
    cases multiline with
    | true =>
        rw [if_pos rfl, line]
        exact .plain '\n' (by decide) (by decide) (.inr ⟨rfl, rfl⟩)
    | false => exact .escape c 'n' rfl (by rw [line]; rfl)
  split
  · next control => exact .code c rfl (toNat_lt_of_isControl control)
  · next line control =>
    rw [beq_iff_eq] at line
    have admitted := isPrintable_of_isControl (Bool.eq_false_iff.mpr control)
    exact .plain c mark (fun h => absurd h backslash) (.inl (admitted.resolve_right line))

/-- How a basic string with escapes writes a character. -/
theorem spells_escapeAll : Spells ⟨'\x22', multiline⟩ c (escapeAll multiline c) := by
  by_cases special : (c == '\x22' || c == '\x5c') = true
  · rw [escapeAll, if_pos special]
    refine .escape c c rfl ?_
    rw [Bool.or_eq_true, beq_iff_eq, beq_iff_eq] at special
    rcases special with rfl | rfl <;> rfl
  · rw [escapeAll, if_neg special]
    rw [Bool.or_eq_true, beq_iff_eq, beq_iff_eq, not_or] at special
    exact spells_escapeChar special.1 special.2

end Quotation

/-! ## Reading the characters of a string -/

namespace Quotation

/-- A string in which no escape and no marks have been begun. -/
def opened (q : Quotation) (text content : List Char) : OpenString :=
  ⟨q.delimiter, q.multiline, text, content, 0, .none⟩

/-- Whether a string that is being read has the given contents, latest character first, among them
marks that might be those that end it. -/
structure Inside (q : Quotation) (content : List Char) (s : OpenString) : Prop where
  delimiter : s.delimiter = q.delimiter
  multiline : s.multiline = q.multiline
  escape : s.escape = .none
  content : List.replicate s.marks s.delimiter ++ s.value = content
  few : s.marks < 3
  single : q.multiline = false → s.marks = 0

variable {q : Quotation} {content : List Char} {s : OpenString} {c : Char}

theorem inside_opened (q : Quotation) (text content : List Char) :
    Inside q content (q.opened text content) :=
  ⟨rfl, rfl, rfl, rfl, Nat.zero_lt_succ _, fun _ => rfl⟩

theorem Inside.keepMarks_eq (h : Inside q content s) : s.keepMarks = q.opened s.text content := by
  obtain ⟨delimiter, multiline, text, value, marks, escape⟩ := s
  obtain ⟨rfl, rfl, rfl, rfl, -, -⟩ := h
  rfl

/-- A character that is no mark is read after the marks before it. -/
theorem Inside.step (h : Inside q content s) (other : c ≠ q.delimiter) (ts : List Token) :
    Lexer.step ⟨ts, .string s⟩ c =
      ((q.opened s.text content).step c).map fun s => ⟨ts, .string s⟩ := by
  have no : ¬s.isDelimiter c = true := by
    rw [OpenString.isDelimiter, h.delimiter, Bool.and_eq_true, beq_iff_eq]
    exact fun mark => other mark.1
  have few : ¬3 ≤ s.marks := Nat.not_le.mpr h.few
  rw [← h.keepMarks_eq]
  cases multi : q.multiline with
  | true => simp only [Lexer.step, h.multiline, multi, if_neg no, if_neg few, if_true]
  | false =>
      have kept : s.keepMarks = s := by
        obtain ⟨delimiter, multiline, text, value, marks, escape⟩ := s
        obtain rfl : marks = 0 := h.single multi
        rfl
      simp only [Lexer.step, h.multiline, multi, if_neg no, kept, Bool.false_eq_true, if_false]

/-- A character of an escape. -/
theorem step_escape {text content : List Char} {escape : Escape} (begun : escape = .begun ∨
    ∃ value left, escape = .code value left) (ts : List Token) :
    Lexer.step ⟨ts, .string { q.opened text content with escape }⟩ c =
      (OpenString.step { q.opened text content with escape } c).map
        fun s => ⟨ts, .string s⟩ := by
  have no : ¬OpenString.isDelimiter { q.opened text content with escape } c = true := by
    rw [OpenString.isDelimiter, Bool.and_eq_true]
    rintro ⟨-, plain⟩
    rcases begun with rfl | ⟨value, left, rfl⟩ <;> cases plain
  simp only [Lexer.step, if_neg no]
  cases multi : q.multiline with
  | true =>
      simp only [opened, multi, if_true, OpenString.keepMarks, List.replicate_zero, List.nil_append]
      rfl
  | false => simp only [opened, multi, Bool.false_eq_true, if_false]

/-- Hexadecimal digits are read as what they are written for. -/
theorem isHexDigit_upperHexDigit {n : Nat} (short : n < 16) :
    isHexDigit (upperHexDigit n) = true ∧ digitValue (upperHexDigit n) = n := by
  decide +revert

/-- A character that is written as it is. -/
theorem step_plain {text : List Char} (noEscape : c = '\x5c' → q.delimiter ≠ '\x22')
    (admitted : isPrintable c = true ∨ c = '\n' ∧ q.multiline = true)
    (line : q.multiline = true → c = '\n' → 3 < text.length) :
    (q.opened text content).step c = some (q.opened (c :: text) (c :: content)) := by
  have plain : ¬(c == '\x5c' && q.delimiter == '\x22') = true := by
    rw [Bool.and_eq_true, beq_iff_eq, beq_iff_eq]
    exact fun h => noEscape h.1 h.2
  change (q.opened (c :: text) content).plainStep c = _
  unfold OpenString.plainStep
  rw [if_neg (by exact plain)]
  rcases admitted with printable | ⟨rfl, multi⟩
  · have other : ¬(c == '\n') = true := by
      rw [beq_iff_eq]
      rintro rfl
      cases printable
    rw [if_neg other, if_pos printable]
    rfl
  · have counts : ¬((q.opened ('\n' :: text) content).text.length == 4) = true := by
      rw [beq_iff_eq]
      have long := line multi rfl
      change text.length + 1 ≠ 4
      omega
    have several : ¬(!(q.opened ('\n' :: text) content).multiline) = true := by
      change ¬(!q.multiline) = true
      rw [multi]
      decide
    rw [if_pos (beq_self_eq_true '\n'), if_neg several, if_neg counts]
    rfl

/-- What follows a backslash is read as an escape. -/
theorem run_backslash (h : Inside q content s) (basic : q.delimiter = '\x22') (w : List Char)
    (ts : List Token) :
    runAll Lexer.step ⟨ts, .string s⟩ ('\x5c' :: w) =
      runAll Lexer.step ⟨ts,
        .string { q.opened ('\x5c' :: s.text) content with escape := .begun }⟩ w := by
  have other : '\x5c' ≠ q.delimiter := by
    rw [basic]
    decide
  have begun : (q.opened s.text content).step '\x5c' =
      some { q.opened ('\x5c' :: s.text) content with escape := .begun } := by
    obtain ⟨delimiter, multiline⟩ := q
    obtain rfl : delimiter = '\x22' := basic
    rfl
  rw [runAll_cons, h.step other, begun]
  rfl

/-- The next character of an escape. -/
theorem run_escape {text : List Char} {escape : Escape} (begun : escape = .begun ∨
    ∃ value left, escape = .code value left) {s' : OpenString}
    (step : OpenString.step { q.opened text content with escape } c = some s') (w : List Char)
    (ts : List Token) :
    runAll Lexer.step ⟨ts, .string { q.opened text content with escape }⟩ (c :: w) =
      runAll Lexer.step ⟨ts, .string s'⟩ w := by
  rw [runAll_cons, step_escape begun, step]
  rfl

/-- A digit of a code that is not the last one. -/
theorem step_digit {text : List Char} {value left : Nat} (digit : isHexDigit c = true)
    (more : 1 < left) :
    OpenString.step { q.opened text content with escape := .code value left } c =
      some { q.opened (c :: text) content with
        escape := .code (value * 16 + digitValue c) (left - 1) } := by
  simp only [OpenString.step, opened, if_pos digit, if_pos more]

/-- The last digit of a code. -/
theorem step_lastDigit {text : List Char} {value : Nat} {d : Char} (digit : isHexDigit c = true)
    (code : value * 16 + digitValue c = d.toNat) :
    OpenString.step { q.opened text content with escape := .code value 1 } c =
      some (q.opened (c :: text) (d :: content)) := by
  have valid : isScalarValue d.toNat = true := by
    have range := d.valid
    simp only [isScalarValue, Bool.or_eq_true, Bool.and_eq_true, decide_eq_true_eq]
    exact range
  simp only [OpenString.step, opened, if_pos digit, if_neg (Nat.lt_irrefl 1), code, if_pos valid,
    Char.ofNat_toNat]

/-- **What spells a character is read as the character.** -/
theorem read_of_spells {w : List Char} (spells : Spells q c w) (h : Inside q content s)
    (line : q.multiline = true → c = '\n' → 3 < s.text.length)
    (few : w = [q.delimiter] → ¬[q.delimiter, q.delimiter] <+: content) :
    ∃ s', (∀ ts, runAll Lexer.step ⟨ts, .string s⟩ w = some ⟨ts, .string s'⟩) ∧
      Inside q (c :: content) s' ∧ s'.text = w.reverse ++ s.text := by
  cases spells with
  | plain _ other noEscape admitted =>
      refine ⟨q.opened (c :: s.text) (c :: content), fun ts => ?_, inside_opened _ _ _, rfl⟩
      rw [runAll_singleton, h.step other, step_plain noEscape admitted line, Option.map_some]
  | mark multiline =>
      have kept := h.content
      rw [h.delimiter] at kept
      -- two marks before would be a third one now
      have below : s.marks < 2 := by
        by_contra many
        have two : s.marks = 2 := by
          have := h.few
          omega
        rw [two] at kept
        exact few rfl ⟨s.value, kept⟩
      have mark : s.isDelimiter q.delimiter = true := by
        rw [OpenString.isDelimiter, h.delimiter, h.escape, beq_self_eq_true]
        rfl
      have open' : ¬s.countMark.marks = 5 := by
        change ¬s.marks + 1 = 5
        omega
      refine ⟨s.countMark, fun ts => ?_, ?_, ?_⟩
      · rw [runAll_singleton]
        simp only [Lexer.step, h.multiline, multiline, if_pos mark, if_neg open', if_true]
      · have same : ¬3 ≤ s.marks := by omega
        refine ⟨h.delimiter, h.multiline, rfl, ?_, Nat.succ_lt_succ below, ?_⟩
        · change List.replicate (s.marks + 1) s.delimiter ++
            (if 3 ≤ s.marks then s.delimiter :: s.value else s.value) = _
          rw [if_neg same, List.replicate_succ, h.delimiter, List.cons_append, kept]
        · intro single
          cases multiline.symm.trans single
      · change s.delimiter :: s.text = _
        rw [h.delimiter]
        rfl
  | escape _ e basic stands =>
      have letter :
          OpenString.step { q.opened ('\x5c' :: s.text) content with escape := .begun } e =
          some (q.opened (e :: '\x5c' :: s.text) (c :: content)) := by
        simp only [OpenString.step, OpenString.escapeStep, stands]
        rfl
      refine ⟨q.opened (e :: '\x5c' :: s.text) (c :: content), fun ts => ?_,
        inside_opened _ _ _, rfl⟩
      rw [run_backslash h basic, run_escape (.inl rfl) letter]
      rfl
  | code _ basic short =>
      obtain ⟨high, high_value⟩ := @isHexDigit_upperHexDigit (c.toNat / 16) (by omega)
      obtain ⟨low, low_value⟩ := @isHexDigit_upperHexDigit (c.toNat % 16) (by omega)
      have sum : (0 * 16 + digitValue '0') * 16 + digitValue '0' = 0 := rfl
      have code : (0 * 16 + c.toNat / 16) * 16 + c.toNat % 16 = c.toNat := by omega
      refine ⟨q.opened _ (c :: content), fun ts => ?_, inside_opened _ _ _, rfl⟩
      have letter :
          OpenString.step { q.opened ('\x5c' :: s.text) content with escape := .begun } 'u' =
          some { q.opened ('u' :: '\x5c' :: s.text) content with escape := .code 0 4 } := rfl
      rw [run_backslash h basic, run_escape (.inl rfl) letter,
        run_escape (.inr ⟨_, _, rfl⟩) (step_digit rfl (by decide)),
        run_escape (.inr ⟨_, _, rfl⟩) (step_digit rfl (by decide)), sum,
        run_escape (.inr ⟨_, _, rfl⟩) (step_digit high (by decide)), high_value,
        run_escape (.inr ⟨_, _, rfl⟩) (step_lastDigit low (by rw [low_value]; exact code))]
      rfl

/-- The characters of a string are read one after another. -/
theorem read_flatMap {f : Char → List Char} {cs : List Char}
    (spells : ∀ c ∈ cs, Spells q c (f c)) (h : Inside q content s)
    (line : q.multiline = true → '\n' ∈ cs → 3 < s.text.length)
    (few : ∀ before c after, cs = before ++ c :: after → f c = [q.delimiter] →
      ¬[q.delimiter, q.delimiter] <+: before.reverse ++ content) :
    ∃ s', (∀ ts, runAll Lexer.step ⟨ts, .string s⟩ (cs.flatMap f) = some ⟨ts, .string s'⟩) ∧
      Inside q (cs.reverse ++ content) s' ∧ s'.text = (cs.flatMap f).reverse ++ s.text := by
  induction cs generalizing s content with
  | nil => exact ⟨s, fun ts => rfl, h, rfl⟩
  | cons c cs ih =>
      obtain ⟨m, run_first, inside, text⟩ := read_of_spells (spells c List.mem_cons_self) h
        (fun multi same => line multi (same ▸ List.mem_cons_self)) (few [] c cs rfl)
      obtain ⟨s', run_rest, inside', text'⟩ := ih
        (fun d member => spells d (List.mem_cons_of_mem _ member)) inside
        (fun multi member => by
          have long := line multi (List.mem_cons_of_mem _ member)
          rw [text, List.length_append]
          omega)
        (fun before d after split => by
          have later := few (c :: before) d after (by rw [split, List.cons_append])
          rwa [List.reverse_cons, List.append_assoc] at later)
      refine ⟨s', fun ts => ?_, ?_, ?_⟩
      · rw [List.flatMap_cons, runAll_append, run_first, Option.bind_some, run_rest]
      · rw [List.reverse_cons, List.append_assoc]
        exact inside'
      · rw [text', text, List.flatMap_cons, List.reverse_append, List.append_assoc]

/-! ## Whole strings -/

/-- What spells a character in a string of one line does not begin with the mark. -/
theorem head_of_spells {w : List Char} (spells : Spells q c w) (single : q.multiline = false) :
    ∃ d rest, w = d :: rest ∧ d ≠ q.delimiter := by
  cases spells with
  | plain _ other => exact ⟨c, [], rfl, other⟩
  | mark multiline =>
      rw [single] at multiline
      cases multiline
  | escape _ e basic => exact ⟨'\x5c', [e], rfl, by rw [basic]; decide⟩
  | code _ basic => exact ⟨'\x5c', _, rfl, by rw [basic]; decide⟩

/-- A string of one line is one token. -/
theorem whole_wrap_single {d : Char} {f : Char → List Char} {cs : List Char} (mark : IsQuote d)
    (spells : ∀ c ∈ cs, Spells ⟨d, false⟩ c (f c)) :
    (Token.quoted (wrap ⟨d, false⟩ f cs) cs false).Whole := by
  have starts : Lexer.step {} d = some ⟨[], .delimiters d false⟩ := by
    rcases mark with rfl | rfl <;> rfl
  have text : wrap ⟨d, false⟩ f cs = d :: (cs.flatMap f ++ [d]) := rfl
  cases cs with
  | nil =>
      have read : runAll Lexer.step {} [d, d] = some ⟨[], .delimiters d true⟩ := by
        rcases mark with rfl | rfl <;> rfl
      exact Lexer.whole_of_open read rfl
  | cons c cs =>
      have start := inside_opened ⟨d, false⟩ [d] []
      have noMark (before : List Char) (e : Char) (after : List Char)
          (split : c :: cs = before ++ e :: after) (same : f e = [d]) :
          ¬[d, d] <+: before.reverse ++ [] := by
        obtain ⟨x, rest, first, other⟩ := head_of_spells
          (spells e (split ▸ List.mem_append_right _ List.mem_cons_self)) rfl
        rw [first] at same
        exact absurd (List.cons.inj same).1 other
      obtain ⟨s, run, inside, read⟩ := read_flatMap spells start nofun noMark
      obtain ⟨x, rest, first, other⟩ := head_of_spells (spells c List.mem_cons_self) rfl
      -- the first character is no mark, so it is read as if the string were open
      have opens (rest : List Char) : runAll Lexer.step ⟨[], .delimiters d false⟩ (x :: rest) =
          runAll Lexer.step ⟨[], .string (opened ⟨d, false⟩ [d] [])⟩ (x :: rest) := by
        have no : ¬(x == d) = true := by
          rw [beq_iff_eq]
          exact other
        rw [runAll_cons, runAll_cons, start.step other]
        simp only [Lexer.step, if_neg no, Bool.false_eq_true, if_false]
        rfl
      have ends : Lexer.step ⟨[], .string s⟩ d =
          some ⟨[.quoted (wrap ⟨d, false⟩ f (c :: cs)) (c :: cs) false], .nothing⟩ := by
        have isMark : s.isDelimiter d = true := by
          rw [OpenString.isDelimiter, inside.delimiter, inside.escape, beq_self_eq_true]
          rfl
        have value := inside.content
        rw [inside.single rfl, List.replicate_zero, List.nil_append, List.append_nil] at value
        simp only [Lexer.step, inside.multiline, if_pos isMark, Bool.false_eq_true, if_false,
          OpenString.close, read, value, text, List.reverse_append, List.reverse_cons,
          List.reverse_reverse]
        rfl
      refine Lexer.whole_of_closed (s := d :: ((c :: cs).flatMap f ++ [d])) ?_
      rw [runAll_cons, starts, Option.bind_some, List.flatMap_cons, first, List.append_assoc,
        List.cons_append, opens, ← List.cons_append, ← List.append_assoc, ← first,
        ← List.flatMap_cons, runAll_append, run, Option.bind_some, runAll_singleton, ends]

/-- A quotation mark in a string of several lines. -/
theorem step_mark {d : Char} {text value : List Char} {n : Nat} (few : n + 1 ≠ 5) :
    Lexer.step ⟨[], .string ⟨d, true, text, value, n, .none⟩⟩ d =
      some ⟨[], .string ⟨d, true, d :: text, if 3 ≤ n then d :: value else value,
        n + 1, .none⟩⟩ := by
  have mark : OpenString.isDelimiter ⟨d, true, text, value, n, .none⟩ d = true := by
    rw [OpenString.isDelimiter, beq_self_eq_true]
    rfl
  simp only [Lexer.step, if_pos mark, OpenString.countMark, if_neg few, if_true]

/-- A string of several lines that is followed by its closing marks is one token. -/
theorem whole_of_marks {d : Char} {text : List Char}
    (run : runAll Lexer.step {} text = some ⟨[], .string s⟩) (here : s.text.reverse = text)
    (inside : Inside ⟨d, true⟩ content s) :
    (Token.quoted (text ++ [d, d, d]) content.reverse true).Whole := by
  obtain ⟨delimiter, multiline, read, value, marks, escape⟩ := s
  obtain rfl : delimiter = d := inside.delimiter
  obtain rfl : multiline = true := inside.multiline
  obtain rfl : escape = .none := inside.escape
  have few : marks < 3 := inside.few
  have contents : List.replicate marks delimiter ++ value = content := inside.content
  have read_all (o : Lexer)
      (rest : runAll Lexer.step ⟨[], .string ⟨delimiter, true, read, value, marks, .none⟩⟩
        [delimiter, delimiter, delimiter] = some o) :
      runAll Lexer.step {} (text ++ [delimiter, delimiter, delimiter]) = some o := by
    rw [runAll_append, run]
    exact rest
  have all : text ++ [delimiter, delimiter, delimiter] =
      (delimiter :: delimiter :: delimiter :: read).reverse := by
    rw [← here]
    simp
  subst contents
  -- with two marks before the closing ones there are five, which end the string at once; with fewer
  -- the next character does
  match marks, few with
  | 0, _ =>
      have ended : runAll Lexer.step ⟨[], .string ⟨delimiter, true, read, value, 0, .none⟩⟩
          [delimiter, delimiter, delimiter] = some ⟨[], .string ⟨delimiter, true,
            delimiter :: delimiter :: delimiter :: read, value, 3, .none⟩⟩ := by
        rw [runAll_cons, step_mark (by decide), Option.bind_some, runAll_cons,
          step_mark (by decide), Option.bind_some, runAll_singleton, step_mark (by decide)]
        rfl
      refine Lexer.whole_of_open (read_all _ ended) ?_
      rw [all]
      rfl
  | 1, _ =>
      have ended : runAll Lexer.step ⟨[], .string ⟨delimiter, true, read, value, 1, .none⟩⟩
          [delimiter, delimiter, delimiter] = some ⟨[], .string ⟨delimiter, true,
            delimiter :: delimiter :: delimiter :: read, delimiter :: value, 4, .none⟩⟩ := by
        rw [runAll_cons, step_mark (by decide), Option.bind_some, runAll_cons,
          step_mark (by decide), Option.bind_some, runAll_singleton, step_mark (by decide)]
        rfl
      refine Lexer.whole_of_open (read_all _ ended) ?_
      rw [all]
      rfl
  | 2, _ =>
      refine Lexer.whole_of_closed (read_all _ ?_)
      rw [runAll_cons, step_mark (by decide), Option.bind_some, runAll_cons,
        step_mark (by decide), Option.bind_some, runAll_singleton, all]
      have mark : OpenString.isDelimiter ⟨delimiter, true, delimiter :: delimiter :: read,
          delimiter :: value, 4, .none⟩ delimiter = true := by
        rw [OpenString.isDelimiter, beq_self_eq_true]
        rfl
      exact if_pos mark

/-- A string of several lines is one token. -/
theorem whole_wrap_several {d : Char} {f : Char → List Char} {cs : List Char} (mark : IsQuote d)
    (spells : ∀ c ∈ cs, Spells ⟨d, true⟩ c (f c))
    (few : ∀ before c after, cs = before ++ c :: after → f c = [d] → ¬[d, d] <+: before.reverse) :
    (Token.quoted (wrap ⟨d, true⟩ f cs) cs true).Whole := by
  obtain ⟨text, starts, run, long⟩ : ∃ text : List Char,
      text.reverse = marks ⟨d, true⟩ ++ (if cs.contains '\n' then ['\n'] else []) ∧
      runAll Lexer.step {} text.reverse = some ⟨[], .string (opened ⟨d, true⟩ text [])⟩ ∧
      ('\n' ∈ cs → 3 < text.length) := by
    by_cases line : '\n' ∈ cs
    · refine ⟨['\n', d, d, d], ?_, ?_, fun _ => Nat.lt_succ_self 3⟩
      · rw [if_pos (List.contains_iff_mem.mpr line)]
        rfl
      · rcases mark with rfl | rfl <;> rfl
    · refine ⟨[d, d, d], ?_, ?_, fun h => absurd h line⟩
      · rw [if_neg (mt List.contains_iff_mem.mp line)]
        rfl
      · rcases mark with rfl | rfl <;> rfl
  have start := inside_opened ⟨d, true⟩ text []
  obtain ⟨s, run_rest, inside, read⟩ := read_flatMap spells start (fun _ => long)
    (by simpa using few)
  rw [List.append_nil] at inside
  have run_all : runAll Lexer.step {} (text.reverse ++ cs.flatMap f) = some ⟨[], .string s⟩ := by
    rw [runAll_append, run]
    exact run_rest []
  have whole := whole_of_marks run_all (by rw [read]; simp [opened]) inside
  rw [List.reverse_reverse] at whole
  have all : wrap ⟨d, true⟩ f cs = text.reverse ++ cs.flatMap f ++ [d, d, d] := by
    rw [starts, wrap]
    simp only [Bool.true_and]
    rfl
  rw [all]
  exact whole

/-- A string in quotation marks is one token. -/
theorem whole_wrap {f : Char → List Char} {cs : List Char} (mark : IsQuote q.delimiter)
    (spells : ∀ c ∈ cs, Spells q c (f c))
    (few : q.multiline = true → ∀ before c after, cs = before ++ c :: after →
      f c = [q.delimiter] → ¬[q.delimiter, q.delimiter] <+: before.reverse) :
    (Token.quoted (wrap q f cs) cs q.multiline).Whole := by
  obtain ⟨delimiter, multiline⟩ := q
  cases multiline with
  | false => exact whole_wrap_single mark spells
  | true => exact whole_wrap_several mark spells (few rfl)

/-- Only the mark is written as the mark. -/
theorem eq_of_spells_mark (spells : Spells q c [q.delimiter]) : c = q.delimiter := by
  generalize w_eq : [q.delimiter] = w at spells
  cases spells with
  | plain => exact (List.cons.inj w_eq).1.symm
  | mark => rfl
  | escape => cases (List.cons.inj w_eq).2
  | code => cases (List.cons.inj w_eq).2

/-- In a string that fits there are never three marks in a row. -/
theorem few_of_fits {f : Char → List Char} {cs : List Char} (fits : q.fits cs = true)
    (spells : ∀ c ∈ cs, Spells q c (f c)) (multi : q.multiline = true) (before : List Char)
    (c : Char) (after : List Char) (split : cs = before ++ c :: after)
    (written : f c = [q.delimiter]) : ¬[q.delimiter, q.delimiter] <+: before.reverse := by
  rintro ⟨rest, two⟩
  have same : c = q.delimiter := by
    have here := spells c (split ▸ List.mem_append_right _ List.mem_cons_self)
    rw [written] at here
    exact eq_of_spells_mark here
  have marks : q.marks = [q.delimiter, q.delimiter, q.delimiter] := by
    rw [Quotation.marks, multi]
    rfl
  have before_eq : before = rest.reverse ++ [q.delimiter, q.delimiter] := by
    rw [← List.reverse_reverse before, ← two, List.reverse_append]
    rfl
  have three : cs = rest.reverse ++ (q.marks ++ after) := by
    rw [split, before_eq, marks, same, List.append_assoc]
    rfl
  simp only [Quotation.fits, multi, if_true, Bool.and_eq_true, Bool.not_eq_true'] at fits
  have found := occursIn_append rest.reverse q.marks after
  rw [← three, fits.2] at found
  cases found

/-- What a string that fits may contain. -/
theorem admits_of_fits {cs : List Char} (fits : q.fits cs = true) (member : c ∈ cs) :
    (isPrintable c = true ∨ c = '\n' ∧ q.multiline = true) ∧
      (q.delimiter = '\x22' → c ≠ '\x5c') ∧ (q.multiline = false → c ≠ q.delimiter) := by
  simp only [Quotation.fits, Bool.and_eq_true, Bool.not_eq_true', Bool.or_eq_true,
    beq_iff_eq] at fits
  obtain ⟨⟨controls, backslashes⟩, marks⟩ := fits
  have other {d : Char} (none : cs.contains d = false) : c ≠ d := by
    rintro rfl
    rw [List.contains_iff_mem.mpr member] at none
    cases none
  refine ⟨?_, fun basic => ?_, fun single => ?_⟩
  · have control : isControl c = false :=
      Bool.eq_false_iff.mpr (List.any_eq_false.mp controls c member)
    refine (isPrintable_of_isControl control).imp_right fun line => ⟨line, ?_⟩
    by_contra single
    rw [if_neg single, Bool.and_eq_true, Bool.not_eq_true', Bool.not_eq_true'] at marks
    exact other marks.2 line
  · refine other (backslashes.resolve_left ?_)
    rw [basic]
    decide
  · rw [if_neg (by rw [single]; decide), Bool.and_eq_true, Bool.not_eq_true'] at marks
    exact other marks.1

/-- A string that fits between marks is one token there. -/
theorem whole_of_fits {f : Char → List Char} {cs : List Char} (mark : IsQuote q.delimiter)
    (fits : q.fits cs = true) (itself : f q.delimiter = [q.delimiter])
    (spells : ∀ c, c ≠ q.delimiter → (q.delimiter = '\x22' → c ≠ '\x5c') →
      isPrintable c = true ∨ c = '\n' ∧ q.multiline = true → Spells q c (f c)) :
    (Token.quoted (wrap q f cs) cs q.multiline).Whole := by
  have all : ∀ c ∈ cs, Spells q c (f c) := by
    intro c member
    obtain ⟨admitted, noBackslash, noMark⟩ := admits_of_fits fits member
    by_cases same : c = q.delimiter
    · rw [same, itself]
      refine .mark ?_
      by_contra single
      exact noMark (Bool.eq_false_iff.mpr single) same
    · exact spells c same noBackslash admitted
  exact whole_wrap mark all (few_of_fits fits all)

end Quotation

/-! ## Written strings -/

open Quotation

/-- **A string is written as a token that stands for it.** -/
theorem whole_quote (s : List Char) : ∃ multiline, (Token.quoted (quote s) s multiline).Whole := by
  unfold quote
  split
  · next q found =>
    have fits : q.fits s = true := by
      have this := List.find?_some found
      exact this
    have known : q.delimiter = '\x22' ∨ q.delimiter = '\x27' := by
      have member := List.mem_of_find?_eq_some found
      simp only [Quotation.all, List.mem_cons, List.not_mem_nil, or_false] at member
      rcases member with rfl | rfl | rfl | rfl <;> decide
    refine ⟨q.multiline, ?_⟩
    by_cases basic : q.delimiter = '\x22'
    · rw [if_pos (beq_iff_eq.mpr basic)]
      obtain ⟨delimiter, multiline⟩ := q
      obtain rfl : delimiter = '\x22' := basic
      exact whole_of_fits known fits rfl fun c other noBackslash _ =>
        spells_escapeChar other (noBackslash rfl)
    · rw [if_neg (mt beq_iff_eq.mp basic)]
      exact whole_of_fits known fits rfl fun c other _ admitted =>
        .plain c other (fun _ => basic) admitted
  · refine ⟨s.contains '\n', whole_wrap (.inl rfl) (fun c _ => spells_escapeAll) ?_⟩
    -- with escapes no mark is written as it is
    intro several before c after split same
    have here : Spells ⟨'\x22', s.contains '\n'⟩ c (escapeAll (s.contains '\n') c) :=
      spells_escapeAll
    rw [same] at here
    rw [eq_of_spells_mark here] at same
    cases same

/-- A part of a key is a token that may stand in keys. -/
def KeyPart.IsToken (text : List Char) (name : String) : Prop :=
  ∃ t : Token, t.Whole ∧ t.text = text ∧ OpenKey.part? t = some (text, name)

/-- **A name is written as a token that may be a part of a key and stands for it.** -/
theorem isToken_ofName (name : String) : KeyPart.IsToken (KeyPart.ofName name).text name := by
  unfold KeyPart.ofName
  dsimp only
  split
  · next bare =>
    rw [Bool.and_eq_true, Bool.not_eq_true', List.isEmpty_eq_false_iff] at bare
    refine ⟨.word name.toList, ⟨bare.1, ?_⟩, rfl, ?_⟩
    · refine List.all_eq_true.mpr fun c member => ?_
      have h := List.all_eq_true.mp bare.2 c member
      simp only [OpenKey.isBare, Bool.or_eq_true, beq_iff_eq] at h
      simp only [isWordChar, Bool.or_eq_true, beq_iff_eq]
      exact .inl (.inl h)
    · rw [OpenKey.part?, if_pos bare.2, String.ofList_toList]
  · refine ⟨.quoted _ name.toList false, ?_, rfl, ?_⟩
    · refine whole_wrap (.inl rfl) (fun c _ => spells_escapeAll) ?_
      intro multiline
      cases multiline
    · rw [OpenKey.part?, String.ofList_toList]
      rfl

end Gatekeeper.Toml
