import Gatekeeper.Text.Decimal

set_option autoImplicit false

/-!
# Tokens of TOML texts

An automaton that cuts a text into tokens, one character at a time. Nothing is lost: the texts of
the tokens, one after another, are the input. It stops at characters that may not stand where they
do: control characters, unknown escapes, line ends inside a string of one line.
-/

namespace Gatekeeper.Toml

open Text

/-- A token of a TOML text. -/
inductive Token
  /-- A space or a tab. -/
  | space (c : Char)
  | newline
  /-- A comment with its mark, without the line end. -/
  | comment (text : List Char)
  /-- Letters, digits and what else a bare key, a number or a date is made of, but no dots. -/
  | word (text : List Char)
  /-- A string as it is written, what it stands for, and whether it may go over several lines. -/
  | quoted (text value : List Char) (multiline : Bool)
  /-- Punctuation. -/
  | mark (c : Char)
  deriving DecidableEq, Repr

/-- A token as it is written. -/
def Token.text : Token → List Char
  | space c => [c]
  | newline => ['\n']
  | comment text => text
  | word text => text
  | quoted text _ _ => text
  | mark c => [c]

/-- The part of an escape that has been read. -/
inductive Escape
  | none
  /-- A backslash. -/
  | begun
  /-- A code in hexadecimal digits, of which `left` are still to come. -/
  | code (value left : Nat)
  /-- A backslash and blanks; once a line end has come, all blanks and line ends are passed over. -/
  | lineEnd (passed : Bool)
  deriving DecidableEq, Repr

/-- A string that is being read. -/
structure OpenString where
  /-- Its quotation mark. -/
  delimiter : Char
  multiline : Bool
  /-- What has been read, latest first. -/
  text : List Char
  /-- What it stands for, latest first. -/
  value : List Char := []
  /-- The number of quotation marks in a row just read. -/
  marks : Nat := 0
  escape : Escape := .none
  deriving DecidableEq, Repr

/-- What the automaton is in the middle of. -/
inductive Open
  | nothing
  | word (text : List Char)
  | comment (text : List Char)
  /-- One or two quotation marks. -/
  | delimiters (delimiter : Char) (two : Bool)
  | string (s : OpenString)
  deriving DecidableEq, Repr

/-- The automaton between two characters: the tokens so far, latest first, and what is open. -/
structure Lexer where
  tokens : List Token := []
  opened : Open := .nothing
  deriving DecidableEq, Repr

/-- The characters of words. -/
def isWordChar (c : Char) : Bool := c.isAlphanum || c == '_' || c == '-' || c == '+' || c == ':'

/-- The punctuation. -/
def isMark (c : Char) : Bool :=
  c == '[' || c == ']' || c == '\x7b' || c == '\x7d' || c == ',' || c == '=' || c == '.'

/-- Whether a character may stand in a comment or a string: all but control characters, of which
only the tab is admitted. -/
def isPrintable (c : Char) : Bool := c == '\t' || (0x20 ≤ c.toNat && c.toNat != 0x7F)

/-- Reads a character between tokens. -/
def Lexer.between (tokens : List Token) (c : Char) : Option Lexer :=
  if c == ' ' || c == '\t' then some { tokens := .space c :: tokens }
  else if c == '\n' then some { tokens := .newline :: tokens }
  else if c == '#' then some { tokens, opened := .comment [c] }
  else if c == '\x22' || c == '\x27' then some { tokens, opened := .delimiters c false }
  else if isMark c then some { tokens := .mark c :: tokens }
  else if isWordChar c then some { tokens, opened := .word [c] }
  else none

/-- The token of a string that has been read. -/
def OpenString.close (s : OpenString) : Token :=
  .quoted s.text.reverse s.value.reverse s.multiline

/-- The character that an escape of one letter stands for. -/
def escaped? (c : Char) : Option Char :=
  if c == 'b' then some '\x08'
  else if c == 't' then some '\t'
  else if c == 'n' then some '\n'
  else if c == 'f' then some '\x0c'
  else if c == 'r' then some '\r'
  else if c == 'e' then some '\x1b'
  else if c == '\x22' || c == '\x5c' then some c
  else none

/-- The number of hexadecimal digits in an escape of the given letter. -/
def codeLength? (c : Char) : Option Nat :=
  if c == 'x' then some 2 else if c == 'u' then some 4 else if c == 'U' then some 8 else none

/-- Whether a number is a code point of a character. -/
def isScalarValue (n : Nat) : Bool := n < 0xD800 || (0xDFFF < n && n < 0x110000)

/-- Reads a character of an escape; `s` has its text already. -/
def OpenString.escapeStep (s : OpenString) (c : Char) : Option OpenString :=
  match escaped? c, codeLength? c with
  | some e, _ => some { s with value := e :: s.value, escape := .none }
  | none, some n => some { s with escape := .code 0 n }
  | none, none =>
    if s.multiline && (c == ' ' || c == '\t') then some { s with escape := .lineEnd false }
    else if s.multiline && c == '\n' then some { s with escape := .lineEnd true }
    else none

/-- Reads a character that is neither part of an escape nor a quotation mark; `s` has its text
already. A line end right after the opening marks does not count. -/
def OpenString.plainStep (s : OpenString) (c : Char) : Option OpenString :=
  if c == '\x5c' && s.delimiter == '\x22' then some { s with escape := .begun }
  else if c == '\n' then
    if !s.multiline then none
    else if s.text.length == 4 then some s
    else some { s with value := c :: s.value }
  else if isPrintable c then some { s with value := c :: s.value }
  else none

/-- Reads a character that does not end the string. -/
def OpenString.step (s : OpenString) (c : Char) : Option OpenString :=
  let s := { s with text := c :: s.text }
  match s.escape with
  | .none => s.plainStep c
  | .begun => s.escapeStep c
  | .code value left =>
    if isHexDigit c then
      let n := value * 16 + digitValue c
      if 1 < left then some { s with escape := .code n (left - 1) }
      else if isScalarValue n then
        some { s with value := Char.ofNat n :: s.value, escape := .none }
      else none
    else none
  | .lineEnd passed =>
    if c == ' ' || c == '\t' then some s
    else if c == '\n' then some { s with escape := .lineEnd true }
    else if passed then { s with escape := .none }.plainStep c
    else none

/-- Whether a character is a quotation mark that is not part of an escape. -/
def OpenString.isDelimiter (s : OpenString) (c : Char) : Bool :=
  c == s.delimiter && (s.escape == .none || s.escape == .lineEnd true)

/-- Reads a quotation mark in a string of several lines. Three of them end it, and up to two before
those belong to it. -/
def OpenString.countMark (s : OpenString) : OpenString :=
  { s with
    text := s.delimiter :: s.text
    value := if 3 ≤ s.marks then s.delimiter :: s.value else s.value
    marks := s.marks + 1
    escape := .none }

/-- Takes the quotation marks just read for part of the string. -/
def OpenString.keepMarks (s : OpenString) : OpenString :=
  { s with value := List.replicate s.marks s.delimiter ++ s.value, marks := 0 }

/-- Reads one character. -/
def Lexer.step (l : Lexer) (c : Char) : Option Lexer :=
  match l.opened with
  | .nothing => between l.tokens c
  | .word text =>
    if isWordChar c then some { l with opened := .word (c :: text) }
    else between (.word text.reverse :: l.tokens) c
  | .comment text =>
    if isPrintable c then some { l with opened := .comment (c :: text) }
    else if c == '\n' then between (.comment text.reverse :: l.tokens) c
    else none
  | .delimiters d two =>
    if c == d then
      if two then some { l with opened := .string ⟨d, true, [d, d, d], [], 0, .none⟩ }
      else some { l with opened := .delimiters d true }
    else if two then between (.quoted [d, d] [] false :: l.tokens) c
    else (OpenString.step ⟨d, false, [d], [], 0, .none⟩ c).map fun s =>
      { l with opened := .string s }
  | .string s =>
    if s.multiline then
      if s.isDelimiter c then
        let s := s.countMark
        if s.marks = 5 then some { tokens := s.close :: l.tokens }
        else some { l with opened := .string s }
      else if 3 ≤ s.marks then between (s.close :: l.tokens) c
      else (s.keepMarks.step c).map fun s => { l with opened := .string s }
    else if s.isDelimiter c then
      some { tokens := { s with text := c :: s.text }.close :: l.tokens }
    else (s.step c).map fun s => { l with opened := .string s }

/-- The token that is complete where the text ends or a character comes that it cannot take. -/
def Open.token? : Open → Option Token
  | .nothing => none
  | .word text => some (.word text.reverse)
  | .comment text => some (.comment text.reverse)
  | .delimiters d two => if two then some (.quoted [d, d] [] false) else none
  | .string s => if s.multiline && 3 ≤ s.marks then some s.close else none

/-- The tokens when the text ends, in order. -/
def Lexer.finish? (l : Lexer) : Option (List Token) :=
  match l.opened with
  | .nothing => some l.tokens.reverse
  | opened => opened.token?.map fun t => (t :: l.tokens).reverse

/-- A text without a byte order mark and with line ends of one character. -/
def normalize (s : List Char) : List Char :=
  joinLineEnds (if s.head? == some '\uFEFF' then s.tail else s)
where
  /-- Writes a line end of two characters as one. -/
  joinLineEnds : List Char → List Char
    | [] => []
    | [c] => [c]
    | c :: d :: rest =>
      if c == '\r' && d == '\n' then joinLineEnds (d :: rest) else c :: joinLineEnds (d :: rest)

/-- The tokens of a text. -/
def tokens? (s : List Char) : Option (List Token) :=
  ((normalize s).foldlM Lexer.step {}).bind Lexer.finish?

end Gatekeeper.Toml
