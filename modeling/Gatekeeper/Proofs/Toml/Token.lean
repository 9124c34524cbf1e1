import Gatekeeper.Proofs.Automaton
import Gatekeeper.Toml.Token
import Mathlib.Data.List.Basic

set_option autoImplicit false

/-!
# Where a text is cut

The automaton never looks back: how it reads a character depends on what is open and on nothing that
has been cut off (`Lexer.reading`). So a token is cut off by the character after it, whatever stands
before the token (`Token.CutBy`), and a text is cut into certain tokens if and only if it is their
texts one after another and each of them is cut off by the next (`tokens?_textOf`,
`tokens?_eq_some`). Which characters cut a token off is a matter of its kind (`Token.Whole.cutBy`).
-/

namespace Gatekeeper.Toml

/-- The text of several tokens. -/
def textOf (ts : List Token) : List Char := ts.flatMap Token.text

@[simp] theorem textOf_nil : textOf [] = [] := rfl

@[simp] theorem textOf_cons (t : Token) (ts : List Token) :
    textOf (t :: ts) = t.text ++ textOf ts := rfl

@[simp] theorem textOf_append (ts us : List Token) : textOf (ts ++ us) = textOf ts ++ textOf us :=
  List.flatMap_append

/-- The quotation marks. -/
def IsQuote (c : Char) : Prop := c = '\x22' ∨ c = '\x27'

instance : DecidablePred IsQuote := fun c => inferInstanceAs (Decidable (c = '\x22' ∨ c = '\x27'))

namespace Open

/-- What has been read of the token that is open. -/
def text : Open → List Char
  | .nothing => []
  | .word text => text.reverse
  | .comment text => text.reverse
  | .delimiters d two => if two then [d, d] else [d]
  | .string s => s.text.reverse

/-- What is known of the token that is open. -/
def Sound : Open → Prop
  | .nothing => True
  | .word text => text ≠ [] ∧ text.all isWordChar = true
  | .comment text => ∃ rest, text.reverse = '#' :: rest ∧ rest.all isPrintable = true
  | .delimiters d _ => IsQuote d
  | .string s => IsQuote s.delimiter ∧ s.text.getLast? = some s.delimiter

/-- A token that is complete has all that was read. -/
theorem text_of_token? {o : Open} {t : Token} (token : o.token? = some t) : t.text = o.text := by
  cases o with
  | nothing => cases token
  | word text =>
      cases token
      rfl
  | comment text =>
      cases token
      rfl
  | delimiters d two =>
      cases two <;> cases token
      rfl
  | string s =>
      simp only [token?] at token
      split at token <;> cases token
      rfl

end Open

namespace Token

/-- Whether a character after a token cuts it off, whatever stands before the token. -/
def CutBy (t : Token) (c : Char) : Prop :=
  ∀ ts, runAll Lexer.step ⟨ts, .nothing⟩ (t.text ++ [c]) = Lexer.between (t :: ts) c

/-- Whether the automaton makes such a token. -/
def Whole : Token → Prop
  | space c => c = ' ' ∨ c = '\t'
  | newline => True
  | comment text => ∃ rest, text = '#' :: rest ∧ rest.all isPrintable = true
  | word text => text ≠ [] ∧ text.all isWordChar = true
  | quoted text value multiline =>
    (∃ c rest, text = c :: rest ∧ IsQuote c) ∧
      ∀ c, ¬IsQuote c → (quoted text value multiline).CutBy c
  | mark c => isMark c = true

end Token

/-! ## One character -/

/-- How a character is read while something is open: it goes on with that, it is the last of a
token, it comes after a token, or it may not stand there. In no case do the tokens before matter. -/
inductive Lexer.Reading (opened : Open) (c : Char) : Prop
  | goesOn (o : Open) (text : o.text = opened.text ++ [c]) (sound : opened.Sound → o.Sound)
      (step : ∀ ts, Lexer.step ⟨ts, opened⟩ c = some ⟨ts, o⟩)
  | closes (t : Token) (text : t.text = opened.text ++ [c])
      (whole : opened.Sound → (∀ d, t.CutBy d) → t.Whole)
      (step : ∀ ts, Lexer.step ⟨ts, opened⟩ c = some ⟨t :: ts, .nothing⟩)
  | ends (t : Token) (token : opened.token? = some t)
      (step : ∀ ts, Lexer.step ⟨ts, opened⟩ c = Lexer.between (t :: ts) c)
  | stops (step : ∀ ts, Lexer.step ⟨ts, opened⟩ c = none)

namespace OpenString

variable {s s' : OpenString} {c : Char}

theorem plainStep_kept (step : s.plainStep c = some s') :
    s'.text = s.text ∧ s'.delimiter = s.delimiter := by
  unfold plainStep at step
  split at step
  · cases step
    exact ⟨rfl, rfl⟩
  · split at step
    · split at step
      · cases step
      · split at step <;> cases step <;> exact ⟨rfl, rfl⟩
    · split at step <;> cases step
      exact ⟨rfl, rfl⟩

theorem escapeStep_kept (step : s.escapeStep c = some s') :
    s'.text = s.text ∧ s'.delimiter = s.delimiter := by
  unfold escapeStep at step
  split at step
  · cases step
    exact ⟨rfl, rfl⟩
  · cases step
    exact ⟨rfl, rfl⟩
  · split at step
    · cases step
      exact ⟨rfl, rfl⟩
    · split at step <;> cases step
      exact ⟨rfl, rfl⟩

/-- A character that does not end a string is part of its text. -/
theorem step_kept (step : s.step c = some s') :
    s'.text = c :: s.text ∧ s'.delimiter = s.delimiter := by
  unfold OpenString.step at step
  dsimp only at step
  split at step
  · exact plainStep_kept step
  · exact escapeStep_kept step
  · split at step
    · split at step
      · cases step
        exact ⟨rfl, rfl⟩
      · split at step <;> cases step
        exact ⟨rfl, rfl⟩
    · cases step
  · split at step
    · cases step
      exact ⟨rfl, rfl⟩
    · split at step
      · cases step
        exact ⟨rfl, rfl⟩
      · split at step
        · exact plainStep_kept step
        · cases step

end OpenString

namespace Lexer

theorem reading_nothing (c : Char) : Reading .nothing c := by
  by_cases space : (c == ' ' || c == '\t') = true
  · refine .closes (.space c) rfl (fun _ _ => ?_) fun ts => by
      simp only [step, between, if_pos space]
    rw [Bool.or_eq_true, beq_iff_eq, beq_iff_eq] at space
    exact space
  by_cases line : (c == '\n') = true
  · exact .closes .newline (by rw [beq_iff_eq.mp line]; rfl) (fun _ _ => trivial) fun ts => by
      simp only [step, between, if_neg space, if_pos line]
  by_cases comment : (c == '#') = true
  · refine .goesOn (.comment [c]) rfl (fun _ => ⟨[], ?_, rfl⟩) fun ts => by
      simp only [step, between, if_neg space, if_neg line, if_pos comment]
    rw [beq_iff_eq.mp comment]
    rfl
  by_cases quote : (c == '\x22' || c == '\x27') = true
  · refine .goesOn (.delimiters c false) rfl (fun _ => ?_) fun ts => by
      simp only [step, between, if_neg space, if_neg line, if_neg comment, if_pos quote]
    rw [Bool.or_eq_true, beq_iff_eq, beq_iff_eq] at quote
    exact quote
  by_cases mark : isMark c = true
  · exact .closes (.mark c) rfl (fun _ _ => mark) fun ts => by
      simp only [step, between, if_neg space, if_neg line, if_neg comment, if_neg quote,
        if_pos mark]
  by_cases word : isWordChar c = true
  · exact .goesOn (.word [c]) rfl (fun _ => ⟨by simp, by simp [word]⟩) fun ts => by
      simp only [step, between, if_neg space, if_neg line, if_neg comment, if_neg quote,
        if_neg mark, if_pos word]
  · exact .stops fun ts => by
      simp only [step, between, if_neg space, if_neg line, if_neg comment, if_neg quote,
        if_neg mark, if_neg word]

/-- A character of a string that does not end it. -/
theorem reading_inside (s : OpenString) (c : Char) {opened : Open}
    (here : opened.text = s.text.reverse)
    (begun : opened.Sound → IsQuote s.delimiter ∧ s.text.getLast? = some s.delimiter)
    (step : ∀ ts, Lexer.step ⟨ts, opened⟩ c = (s.step c).map fun s => ⟨ts, .string s⟩) :
    Reading opened c := by
  cases next : s.step c with
  | none => exact .stops fun ts => by rw [step, next, Option.map_none]
  | some s' =>
      obtain ⟨text, delimiter⟩ := OpenString.step_kept next
      refine .goesOn (.string s') ?_ (fun sound => ?_) fun ts => by rw [step, next, Option.map_some]
      · rw [Open.text, text, List.reverse_cons, here]
      · rw [Open.Sound, delimiter, text, List.getLast?_cons, (begun sound).2]
        exact ⟨(begun sound).1, rfl⟩

/-- The token of a string begins with its quotation mark. -/
theorem whole_of_begins {d : Char} {text value : List Char} {multiline : Bool}
    (begun : IsQuote d ∧ text.getLast? = some d)
    (cut : ∀ c, ¬IsQuote c → (Token.quoted text.reverse value multiline).CutBy c) :
    (Token.quoted text.reverse value multiline).Whole := by
  obtain ⟨rest, rest_eq⟩ := List.getLast?_eq_some_iff.mp begun.2
  refine ⟨⟨d, rest.reverse, ?_, begun.1⟩, cut⟩
  rw [rest_eq, List.reverse_append]
  rfl

theorem reading_string (s : OpenString) (c : Char) : Reading (.string s) c := by
  by_cases multi : s.multiline = true
  · by_cases mark : s.isDelimiter c = true
    · have same : c = s.delimiter := by
        simp only [OpenString.isDelimiter, Bool.and_eq_true, beq_iff_eq] at mark
        exact mark.1
      have begun (sound : (Open.string s).Sound) :
          IsQuote s.delimiter ∧ (s.delimiter :: s.text).getLast? = some s.delimiter := by
        rw [List.getLast?_cons, sound.2]
        exact ⟨sound.1, rfl⟩
      by_cases five : s.countMark.marks = 5
      · refine .closes s.countMark.close ?_ (fun sound cut => ?_) fun ts => by
          simp only [step, if_pos multi, if_pos mark, if_pos five]
        · rw [same]
          exact List.reverse_cons
        · exact whole_of_begins (begun sound) fun c _ => cut c
      · refine .goesOn (.string s.countMark) ?_ begun fun ts => by
          simp only [step, if_pos multi, if_pos mark, if_neg five]
        rw [same]
        exact List.reverse_cons
    · by_cases three : 3 ≤ s.marks
      · refine .ends s.close ?_ fun ts => by
          simp only [step, if_pos multi, if_neg mark, if_pos three]
        simp only [Open.token?, multi, three, decide_true, Bool.and_self, if_true]
      · exact reading_inside s.keepMarks c rfl (fun sound => sound) fun ts => by
          simp only [step, if_pos multi, if_neg mark, if_neg three]
  · by_cases mark : s.isDelimiter c = true
    · refine .closes { s with text := c :: s.text }.close ?_ (fun sound cut => ?_) fun ts => by
        simp only [step, if_neg multi, if_pos mark]
      · exact List.reverse_cons
      · refine whole_of_begins (d := s.delimiter) ⟨sound.1, ?_⟩ fun c _ => cut c
        rw [List.getLast?_cons, sound.2]
        rfl
    · exact reading_inside s c rfl (fun sound => sound) fun ts => by
        simp only [step, if_neg multi, if_neg mark]

/-- **A character is read by what is open.** -/
theorem reading (opened : Open) (c : Char) : Reading opened c := by
  cases opened with
  | nothing => exact reading_nothing c
  | word text =>
      by_cases word : isWordChar c = true
      · refine .goesOn (.word (c :: text)) List.reverse_cons (fun sound => ⟨by simp, ?_⟩)
            fun ts => by
          simp only [step, if_pos word]
        rw [List.all_cons, word, sound.2, Bool.and_self]
      · exact .ends (.word text.reverse) rfl fun ts => by simp only [step, if_neg word]
  | comment text =>
      by_cases printable : isPrintable c = true
      · refine .goesOn (.comment (c :: text)) List.reverse_cons ?_ fun ts => by
          simp only [step, if_pos printable]
        rintro ⟨rest, begun, all⟩
        refine ⟨rest ++ [c], ?_, ?_⟩
        · rw [List.reverse_cons, begun, List.cons_append]
        · simp [all, printable]
      · by_cases line : (c == '\n') = true
        · exact .ends (.comment text.reverse) rfl fun ts => by
            simp only [step, if_neg printable, if_pos line]
        · exact .stops fun ts => by simp only [step, if_neg printable, if_neg line]
  | delimiters d two =>
      by_cases mark : (c == d) = true
      · have same : c = d := beq_iff_eq.mp mark
        cases two with
        | true =>
            exact .goesOn (.string ⟨d, true, [d, d, d], [], 0, .none⟩) (by rw [same]; rfl)
              (fun sound => ⟨sound, rfl⟩) fun ts => by simp only [step, if_pos mark, if_true]
        | false =>
            exact .goesOn (.delimiters d true) (by rw [same]; rfl) (fun sound => sound) fun ts => by
              simp only [step, if_pos mark, Bool.false_eq_true, if_false]
      · cases two with
        | true =>
            exact .ends (.quoted [d, d] [] false) rfl fun ts => by
              simp only [step, if_neg mark, if_true]
        | false =>
            exact reading_inside ⟨d, false, [d], [], 0, .none⟩ c rfl (fun sound => ⟨sound, rfl⟩)
              fun ts => by simp only [step, if_neg mark, Bool.false_eq_true, if_false]
  | string s => exact reading_string s c

/-- A complete token ends at a character that is no quotation mark, unless it takes it. -/
theorem step_of_token? {o : Open} {t : Token} {c : Char} (token : o.token? = some t)
    (sound : o.Sound) (quote : ¬IsQuote c) (word : ∀ text, o = .word text → isWordChar c = false)
    (comment : ∀ text, o = .comment text → c = '\n') (ts : List Token) :
    step ⟨ts, o⟩ c = between (t :: ts) c := by
  have other {d : Char} (mark : IsQuote d) : ¬(c == d) = true := by
    intro same
    exact quote (beq_iff_eq.mp same ▸ mark)
  cases o with
  | nothing => cases token
  | word text =>
      cases token
      have no : ¬isWordChar c = true := by rw [word text rfl]; decide
      simp only [step, if_neg no]
  | comment text =>
      cases token
      rw [comment text rfl]
      rfl
  | delimiters d two =>
      cases two <;> cases token
      simp only [step, if_neg (other sound), if_true]
  | string s =>
      have no : ¬s.isDelimiter c = true := by
        intro mark
        rw [OpenString.isDelimiter, Bool.and_eq_true] at mark
        exact other sound.1 mark.1
      simp only [Open.token?] at token
      split at token
      · next complete =>
        cases token
        rw [Bool.and_eq_true, decide_eq_true_eq] at complete
        simp only [step, if_pos complete.1, if_neg no, if_pos complete.2]
      · cases token

end Lexer

/-! ## What cuts a token off -/

/-- Words have no control characters. -/
theorem isPrintable_of_isWordChar {c : Char} (word : isWordChar c = true) :
    isPrintable c = true := by
  have bounds : 0x20 ≤ c.toNat ∧ c.toNat < 0x7F := by
    rw [isWordChar] at word
    delta Char.isAlphanum Char.isAlpha Char.isUpper Char.isLower Char.isDigit at word
    simp only [Bool.or_eq_true, Bool.and_eq_true, decide_eq_true_eq, beq_iff_eq, ge_iff_le,
      UInt32.le_iff_toNat_le] at word
    have nat : c.val.toNat = c.toNat := rfl
    rcases word with (((word | rfl) | rfl) | rfl) | rfl
    · simp only [nat, Char.reduceVal, UInt32.reduceToNat] at word
      omega
    all_goals decide
  rw [isPrintable, Bool.or_eq_true, Bool.and_eq_true, decide_eq_true_eq, bne_iff_ne]
  omega

namespace Token

/-- Whether a character cuts off every token of a kind. -/
def EndsAt (c : Char) : Token → Prop
  | comment _ => c = '\n'
  | word _ => isWordChar c = false
  | quoted _ _ _ => ¬IsQuote c
  | _ => True

end Token

namespace Lexer

/-- A token is whole where the automaton completes it. -/
theorem whole_of_token? {o : Open} {t : Token} (token : o.token? = some t) (sound : o.Sound)
    (runs : ∀ ts, runAll step ⟨ts, .nothing⟩ o.text = some ⟨ts, o⟩) : t.Whole := by
  have cut (quoted : ∀ text, o ≠ .word text ∧ o ≠ .comment text) (c : Char) (other : ¬IsQuote c) :
      t.CutBy c := by
    intro ts
    rw [Open.text_of_token? token, runAll_append, runs, Option.bind_some, runAll_singleton]
    exact step_of_token? token sound other (fun text h => absurd h (quoted text).1)
      (fun text h => absurd h (quoted text).2) ts
  cases o with
  | nothing => cases token
  | word text =>
      cases token
      refine ⟨by simpa using sound.1, ?_⟩
      rw [List.all_reverse]
      exact sound.2
  | comment text =>
      cases token
      exact sound
  | delimiters d two =>
      cases two <;> cases token
      exact ⟨⟨d, [d], rfl, sound⟩, cut fun text => ⟨nofun, nofun⟩⟩
  | string s =>
      simp only [Open.token?] at token
      split at token
      · cases token
        exact whole_of_begins sound (cut fun text => ⟨nofun, nofun⟩)
      · cases token

/-- What is read after a token of one character is read between tokens. -/
theorem run_closed {ts : List Token} {d : Char} {t : Token} (c : Char)
    (closed : between ts d = some ⟨t :: ts, .nothing⟩) :
    runAll step ⟨ts, .nothing⟩ [d, c] = between (t :: ts) c := by
  rw [runAll_cons, step, closed, Option.bind_some, runAll_singleton]
  rfl

/-- A character of words begins a word. -/
theorem between_word (ts : List Token) {c : Char} (word : isWordChar c = true) :
    between ts c = some ⟨ts, .word [c]⟩ := by
  have other {d : Char} (no : isWordChar d = false) : (c == d) = false := by
    rw [beq_eq_false_iff_ne]
    rintro rfl
    rw [no] at word
    cases word
  have mark : isMark c = false := by
    simp only [isMark, other (d := '[') rfl, other (d := ']') rfl, other (d := '\x7b') rfl,
      other (d := '\x7d') rfl, other (d := ',') rfl, other (d := '=') rfl, other (d := '.') rfl,
      Bool.or_self]
  simp only [between, other (d := ' ') rfl, other (d := '\t') rfl, other (d := '\n') rfl,
    other (d := '#') rfl, other (d := '\x22') rfl, other (d := '\x27') rfl, mark, word,
    Bool.or_self, Bool.false_eq_true, if_false, if_true]

/-- The characters of a word are read into it. -/
theorem run_word (ts : List Token) (read : List Char) {text : List Char}
    (all : text.all isWordChar = true) :
    runAll step ⟨ts, .word read⟩ text = some ⟨ts, .word (text.reverse ++ read)⟩ := by
  induction text generalizing read with
  | nil => rfl
  | cons c text ih =>
      rw [List.all_cons, Bool.and_eq_true] at all
      have taken : step ⟨ts, .word read⟩ c = some ⟨ts, .word (c :: read)⟩ := by
        simp only [step, if_pos all.1]
      rw [runAll_cons, taken, Option.bind_some, ih _ all.2, List.reverse_cons, List.append_assoc]
      rfl

/-- The characters of a comment are read into it. -/
theorem run_comment (ts : List Token) (read : List Char) {text : List Char}
    (all : text.all isPrintable = true) :
    runAll step ⟨ts, .comment read⟩ text = some ⟨ts, .comment (text.reverse ++ read)⟩ := by
  induction text generalizing read with
  | nil => rfl
  | cons c text ih =>
      rw [List.all_cons, Bool.and_eq_true] at all
      have taken : step ⟨ts, .comment read⟩ c = some ⟨ts, .comment (c :: read)⟩ := by
        simp only [step, if_pos all.1]
      rw [runAll_cons, taken, Option.bind_some, ih _ all.2, List.reverse_cons, List.append_assoc]
      rfl

end Lexer

namespace Token

/-- **What cuts off every token of a kind cuts off a whole one.** -/
theorem Whole.cutBy {t : Token} {c : Char} (whole : t.Whole) (ends : t.EndsAt c) : t.CutBy c := by
  intro ts
  cases t with
  | space d =>
      rcases whole with rfl | rfl <;> exact Lexer.run_closed c rfl
  | newline => exact Lexer.run_closed c rfl
  | mark d =>
      simp only [Whole, isMark, Bool.or_eq_true, beq_iff_eq] at whole
      rcases whole with (((((rfl | rfl) | rfl) | rfl) | rfl) | rfl) | rfl <;>
        exact Lexer.run_closed c rfl
  | comment text =>
      obtain ⟨rest, rfl, all⟩ := whole
      obtain rfl : c = '\n' := ends
      change runAll Lexer.step ⟨ts, .comment ['#']⟩ (rest ++ ['\n']) = _
      rw [runAll_append, Lexer.run_comment ts _ all, Option.bind_some, runAll_singleton]
      simp only [Lexer.step, List.reverse_append, List.reverse_reverse]
      rfl
  | word text =>
      obtain ⟨nonempty, all⟩ := whole
      obtain ⟨d, rest, rfl⟩ := List.exists_cons_of_ne_nil nonempty
      rw [List.all_cons, Bool.and_eq_true] at all
      have begins : Lexer.between ts d = some ⟨ts, .word [d]⟩ := Lexer.between_word ts all.1
      have no : ¬isWordChar c = true := by
        rw [show isWordChar c = false from ends]
        decide
      change (Lexer.between ts d).bind (fun l => runAll Lexer.step l (rest ++ [c])) = _
      rw [begins, Option.bind_some, runAll_append, Lexer.run_word ts _ all.2, Option.bind_some,
        runAll_singleton]
      simp only [Lexer.step, if_neg no, List.reverse_append, List.reverse_reverse]
      rfl
  | quoted text value multiline => exact whole.2 c ends ts

/-- A comment goes on to the end of its line. -/
theorem not_cutBy_comment {text : List Char} {c : Char} (whole : (comment text).Whole)
    (printable : isPrintable c = true) : ¬(comment text).CutBy c := by
  intro cut
  obtain ⟨rest, rfl, all⟩ := whole
  have all_printable : (rest ++ [c]).all isPrintable = true := by
    rw [List.all_append, all, List.all_cons, printable]
    rfl
  have read : runAll Lexer.step ⟨[], .nothing⟩ ('#' :: rest ++ [c]) =
      some ⟨[], .comment ((rest ++ [c]).reverse ++ ['#'])⟩ :=
    Lexer.run_comment [] ['#'] all_printable
  have open_tokens : Lexer.between [comment ('#' :: rest)] c =
      some ⟨[], .comment ((rest ++ [c]).reverse ++ ['#'])⟩ := by
    rw [← read]
    exact (cut []).symm
  -- after a comment that was cut off there would be a token
  unfold Lexer.between at open_tokens
  repeat' split at open_tokens
  all_goals cases open_tokens

end Token

/-! ## Tokens one after another -/

/-- Whether each of several tokens is cut off by the next one, and the last one by `c`. -/
def Chain : List Token → Char → Prop
  | [], _ => True
  | t :: ts, c => t.CutBy ((textOf ts).headD c) ∧ Chain ts c

/-- The first character of two texts one after another. -/
theorem headD_append (s s' : List Char) (c : Char) :
    (s ++ s').headD c = s.headD (s'.headD c) := by
  cases s <;> rfl

theorem chain_append {ts us : List Token} {c : Char} :
    Chain (ts ++ us) c ↔ Chain ts ((textOf us).headD c) ∧ Chain us c := by
  induction ts with
  | nil => exact (iff_of_eq (true_and _)).symm
  | cons t ts ih =>
      rw [List.cons_append, Chain, Chain, ih, textOf_append, headD_append, and_assoc]

theorem chain_singleton {t : Token} {c : Char} : Chain [t] c ↔ t.CutBy c := iff_of_eq (and_true _)

/-- What matters of the character after a chain is whether it cuts off the last token. -/
theorem Chain.change {ts : List Token} {c d : Char} (chain : Chain ts c)
    (last : ∀ t ∈ ts, t.CutBy c → t.CutBy d) : Chain ts d := by
  induction ts with
  | nil => trivial
  | cons t ts ih =>
      obtain ⟨cut, rest⟩ := chain
      refine ⟨?_, ih rest fun u member => last u (List.mem_cons_of_mem _ member)⟩
      cases text : textOf ts with
      | nil =>
          rw [text] at cut
          exact last t List.mem_cons_self cut
      | cons e more =>
          rw [text] at cut
          exact cut

namespace Lexer

/-- **A chain of tokens is what its text is cut into.** -/
theorem run_chain {ts : List Token} {c : Char} (chain : Chain ts c) (before : List Token) :
    runAll step ⟨before, .nothing⟩ (textOf ts ++ [c]) = between (ts.reverse ++ before) c := by
  induction ts generalizing before with
  | nil => exact runAll_singleton _ _
  | cons t ts ih =>
      obtain ⟨cut, rest⟩ := chain
      have first := cut before
      specialize ih rest (t :: before)
      -- the character that cuts `t` off is the next one of the text
      obtain ⟨d, more, text⟩ : ∃ d more, textOf ts ++ [c] = d :: more ∧
          (textOf ts).headD c = d := by
        cases textOf ts with
        | nil => exact ⟨c, [], rfl, rfl⟩
        | cons d more => exact ⟨d, more ++ [c], rfl, rfl⟩
      rw [text.2] at first
      rw [text.1, runAll_cons] at ih
      rw [textOf_cons, List.append_assoc, text.1, ← List.singleton_append, ← List.append_assoc,
        runAll_append, first, List.reverse_cons, List.append_assoc]
      exact ih

/-- What is known when `s` has been read and `c` comes next: no character is lost, the tokens cut
off one another, and what is open would have been opened after any other tokens. -/
structure Holds (l : Lexer) (s : List Char) (c : Char) : Prop where
  text : textOf l.tokens.reverse ++ l.opened.text = s
  chain : Chain l.tokens.reverse (l.opened.text.headD c)
  runs : ∀ ts, runAll step ⟨ts, .nothing⟩ l.opened.text = some ⟨ts, l.opened⟩
  sound : l.opened.Sound
  whole : ∀ t ∈ l.tokens, t.Whole

theorem holds_nil (c : Char) : Holds {} [] c :=
  ⟨rfl, trivial, fun _ => rfl, trivial, nofun⟩

variable {l l' : Lexer} {s : List Char} {c : Char}

/-- The token that is complete is cut off by the next character. -/
theorem Holds.ends (h : l.Holds s c) {t : Token} (token : l.opened.token? = some t)
    (step : ∀ ts, step ⟨ts, l.opened⟩ c = between (t :: ts) c) :
    Holds ⟨t :: l.tokens, .nothing⟩ s c where
  text := by
    rw [List.reverse_cons, textOf_append, ← h.text, ← Open.text_of_token? token]
    simp [Open.text]
  chain := by
    rw [List.reverse_cons]
    refine chain_append.mpr ⟨?_, chain_singleton.mpr fun ts => ?_⟩
    · rw [textOf_cons, textOf_nil, List.append_nil, Open.text_of_token? token]
      exact h.chain
    · rw [Open.text_of_token? token, runAll_append, h.runs, Option.bind_some, runAll_singleton]
      exact step ts
  runs ts := rfl
  sound := trivial
  whole := by
    intro u member
    rcases List.mem_cons.mp member with rfl | member
    · exact whole_of_token? token h.sound h.runs
    · exact h.whole u member

/-- What is open goes on. -/
theorem Holds.goesOn (h : l.Holds s c) {o : Open} (text : o.text = l.opened.text ++ [c])
    (sound : l.opened.Sound → o.Sound) (step : ∀ ts, step ⟨ts, l.opened⟩ c = some ⟨ts, o⟩)
    (d : Char) : Holds ⟨l.tokens, o⟩ (s ++ [c]) d where
  text := by rw [text, ← List.append_assoc, h.text]
  chain := by
    rw [text, headD_append]
    exact h.chain
  runs ts := by rw [text, runAll_append, h.runs, Option.bind_some, runAll_singleton, step]
  sound := sound h.sound
  whole := h.whole

/-- What is open ends with the next character. -/
theorem Holds.closes (h : l.Holds s c) {t : Token} (text : t.text = l.opened.text ++ [c])
    (whole : l.opened.Sound → (∀ d, t.CutBy d) → t.Whole)
    (step : ∀ ts, step ⟨ts, l.opened⟩ c = some ⟨t :: ts, .nothing⟩) (d : Char) :
    Holds ⟨t :: l.tokens, .nothing⟩ (s ++ [c]) d := by
  have cut (e : Char) : t.CutBy e := by
    intro ts
    rw [text, runAll_append, runAll_append, h.runs, Option.bind_some, runAll_singleton, step,
      Option.bind_some, runAll_singleton]
    rfl
  refine ⟨?_, ?_, fun ts => rfl, trivial, ?_⟩
  · rw [List.reverse_cons, textOf_append, ← h.text]
    simp [Open.text, text]
  · rw [List.reverse_cons]
    refine chain_append.mpr ⟨?_, chain_singleton.mpr (cut _)⟩
    rw [textOf_cons, textOf_nil, List.append_nil, text, headD_append]
    exact h.chain
  · intro u member
    rcases List.mem_cons.mp member with rfl | member
    · exact whole h.sound cut
    · exact h.whole u member

/-- **One character more.** -/
theorem Holds.step (h : l.Holds s c) (next : l.step c = some l') (d : Char) :
    l'.Holds (s ++ [c]) d := by
  obtain ⟨tokens, opened⟩ := l
  cases reading opened c with
  | goesOn o text sound step =>
      rw [step] at next
      cases next
      exact h.goesOn text sound step d
  | closes t text whole step =>
      rw [step] at next
      cases next
      exact h.closes text whole step d
  | stops step =>
      rw [step] at next
      cases next
  | ends t token step =>
      -- the token is cut off, and the character is read with nothing open
      have cut := h.ends token step
      rw [step] at next
      cases reading .nothing c with
      | goesOn o text sound step =>
          rw [show between (t :: tokens) c = some ⟨t :: tokens, o⟩ from step _] at next
          cases next
          exact cut.goesOn text sound step d
      | closes u text whole step =>
          rw [show between (t :: tokens) c = some ⟨u :: t :: tokens, .nothing⟩ from step _] at next
          cases next
          exact cut.closes text whole step d
      | ends u token step => cases token
      | stops step =>
          rw [show between (t :: tokens) c = none from step _] at next
          cases next

theorem Holds.run {s' : List Char} (h : ∀ c, l.Holds s c) (read : runAll Lexer.step l s' = some l')
    (c : Char) : l'.Holds (s ++ s') c := by
  induction s' generalizing l s with
  | nil =>
      cases read
      rw [List.append_nil]
      exact h c
  | cons d s' ih =>
      rw [runAll_cons, Option.bind_eq_some_iff] at read
      obtain ⟨m, first, rest⟩ := read
      rw [← List.singleton_append, ← List.append_assoc]
      exact ih (fun e => (h d).step first e) rest

theorem holds_of_run (read : runAll step {} s = some l) (c : Char) : l.Holds s c :=
  Holds.run holds_nil read c

/-- A token that ends by itself is whole. -/
theorem whole_of_closed {t : Token} (read : runAll step {} s = some ⟨[t], .nothing⟩) : t.Whole :=
  (holds_of_run read ' ').whole t List.mem_cons_self

/-- A token that is complete is whole. -/
theorem whole_of_open {o : Open} {t : Token} (read : runAll step {} s = some ⟨[], o⟩)
    (token : o.token? = some t) : t.Whole :=
  whole_of_token? token (holds_of_run read ' ').sound (holds_of_run read ' ').runs

/-! ## Whole texts -/

/-- A line end in a string does not end it. -/
theorem step_inside {ts : List Token} {s : OpenString} {u : List Token}
    (token : (Open.string s).token? = none) (sound : (Open.string s).Sound) :
    step ⟨ts, .string s⟩ '\n' ≠ some ⟨u, .nothing⟩ := by
  have other : ¬s.isDelimiter '\n' = true := by
    rw [OpenString.isDelimiter, Bool.and_eq_true, beq_iff_eq]
    rintro ⟨same, -⟩
    have quote := sound.1
    rw [← same] at quote
    exact absurd quote (by decide)
  intro line
  simp only [Open.token?, ite_eq_right_iff, reduceCtorEq, imp_false, Bool.and_eq_true,
    decide_eq_true_eq, not_and] at token
  by_cases multi : s.multiline = true
  · simp only [step, if_pos multi, if_neg other, if_neg (token multi),
      Option.map_eq_some_iff] at line
    obtain ⟨s', -, shape⟩ := line
    cases shape
  · simp only [step, if_neg multi, if_neg other, Option.map_eq_some_iff] at line
    obtain ⟨s', -, shape⟩ := line
    cases shape

/-- The tokens of a text are what a line end after it leaves. -/
theorem finish?_eq_some_iff {ts : List Token} (sound : l.opened.Sound) :
    l.finish? = some ts ↔ l.step '\n' = some ⟨.newline :: ts.reverse, .nothing⟩ := by
  obtain ⟨tokens, opened⟩ := l
  have line (us : List Token) : some us.reverse = some ts ↔
      some (⟨.newline :: us, .nothing⟩ : Lexer) = some ⟨.newline :: ts.reverse, .nothing⟩ := by
    simp [List.reverse_eq_iff]
  cases token : opened.token? with
  | some t =>
      have ends : step ⟨tokens, opened⟩ '\n' = between (t :: tokens) '\n' :=
        step_of_token? token sound (by decide) (fun _ _ => by decide) (fun _ _ => rfl) _
      rw [ends]
      cases opened with
      | nothing => cases token
      | _ =>
          simp only [finish?, token, Option.map_some]
          exact line _
  | none =>
      cases opened with
      | nothing => exact line _
      | word text => cases token
      | comment text => cases token
      | delimiters d two =>
          cases two with
          | true => cases token
          | false =>
              have fails : step ⟨tokens, .delimiters d false⟩ '\n' = none := by
                rcases sound with rfl | rfl <;> rfl
              rw [fails]
              exact iff_of_false nofun nofun
      | string s =>
          simp only [finish?, token, Option.map_none]
          exact iff_of_false nofun (step_inside token sound)

/-- A carriage return may stand nowhere. -/
theorem step_return (sound : l.opened.Sound) : l.step '\r' = none := by
  have inside (s : OpenString) : s.step '\r' = none := by
    obtain ⟨d, multiline, text, value, marks, escape⟩ := s
    cases escape with
    | none => rfl
    | begun => cases multiline <;> rfl
    | code value left => rfl
    | lineEnd passed => cases passed <;> rfl
  have other {d : Char} (quote : IsQuote d) : ('\r' == d) = false := by
    rcases quote with rfl | rfl <;> rfl
  obtain ⟨tokens, opened⟩ := l
  cases opened with
  | nothing => rfl
  | word text => rfl
  | comment text => rfl
  | delimiters d two =>
      simp only [step, other sound, inside, Bool.false_eq_true, if_false, Option.map_none]
      cases two <;> rfl
  | string s =>
      have no : s.isDelimiter '\r' = false := by
        rw [OpenString.isDelimiter, other sound.1, Bool.false_and]
      simp only [step, no, inside, Bool.false_eq_true, if_false, Option.map_none]
      split
      · split <;> rfl
      · rfl

end Lexer

/-- Only carriage returns and a byte order mark are left out. -/
theorem joinLineEnds_of_notMem {s : List Char} (no : '\r' ∉ s) : normalize.joinLineEnds s = s := by
  induction s using normalize.joinLineEnds.induct with
  | case1 => rfl
  | case2 c => rfl
  | case3 c d rest pair ih =>
      rw [Bool.and_eq_true, beq_iff_eq] at pair
      exact absurd (pair.1 ▸ List.mem_cons_self) no
  | case4 c d rest pair ih =>
      rw [normalize.joinLineEnds, if_neg pair, ih fun member => no (List.mem_cons_of_mem _ member)]

/-- A text that the automaton takes is left as it is. -/
theorem normalize_of_run {s : List Char} {l : Lexer} (read : runAll Lexer.step {} s = some l) :
    normalize s = s := by
  have no : '\r' ∉ s := by
    intro member
    obtain ⟨before, after, rfl⟩ := List.append_of_mem member
    rw [runAll_append, Option.bind_eq_some_iff] at read
    obtain ⟨m, first, rest⟩ := read
    rw [runAll_cons, Lexer.step_return (Lexer.holds_of_run first ' ').sound] at rest
    cases rest
  have mark : s.head? ≠ some '\uFEFF' := by
    intro first
    obtain ⟨rest, rfl⟩ := List.head?_eq_some_iff.mp first
    cases read
  rw [normalize, if_neg (by simpa using mark), joinLineEnds_of_notMem no]

/-- **The tokens of a text**: their texts make it up, each is cut off by the next, the last one by a
line end, and each is one that the automaton makes. -/
theorem tokens?_eq_some {s : List Char} {ts : List Token} (read : tokens? s = some ts) :
    textOf ts = normalize s ∧ Chain ts '\n' ∧ ∀ t ∈ ts, t.Whole := by
  rw [tokens?, Option.bind_eq_some_iff] at read
  obtain ⟨l, run, finish⟩ := read
  have holds := Lexer.holds_of_run run
  have line := (Lexer.finish?_eq_some_iff (holds ' ').sound).mp finish
  have whole := (holds '\n').step line '\n'
  have text := whole.text
  have chain := whole.chain
  simp only [List.reverse_cons, List.reverse_reverse, textOf_append] at text chain
  refine ⟨@List.append_cancel_right _ _ ['\n'] _ ?_, ?_, ?_⟩
  · simpa [Open.text, Token.text] using text
  · exact (chain_append.mp chain).1
  · intro t member
    exact whole.whole t (List.mem_cons_of_mem _ (List.mem_reverse.mpr member))

/-- **A chain of tokens is read back from its text.** -/
theorem tokens?_textOf {ts : List Token} (chain : Chain ts '\n') :
    tokens? (textOf ts) = some ts := by
  have line : runAll Lexer.step {} (textOf ts ++ ['\n']) = Lexer.between (ts.reverse ++ []) '\n' :=
    Lexer.run_chain chain []
  rw [List.append_nil, runAll_append] at line
  cases read : runAll Lexer.step {} (textOf ts) with
  | none =>
      rw [read] at line
      cases line
  | some l =>
      rw [read, Option.bind_some, runAll_singleton] at line
      rw [tokens?, normalize_of_run read]
      change (runAll Lexer.step {} (textOf ts)).bind Lexer.finish? = some ts
      rw [read, Option.bind_some]
      exact (Lexer.finish?_eq_some_iff (Lexer.holds_of_run read ' ').sound).mpr line

end Gatekeeper.Toml
