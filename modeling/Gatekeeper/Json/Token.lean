import Gatekeeper.Json.Number

set_option autoImplicit false

/-!
# Tokens of JSON texts

An automaton that cuts a text into tokens, one character at a time. It stops at the first character
that cannot be part of a JSON text: an unknown escape, a control character inside a string, half of
a surrogate pair, a word that is neither a number nor a literal.
-/

namespace Gatekeeper.Json

open Text

/-- A token of a JSON text. -/
inductive Token
  | openArray
  | closeArray
  | openObject
  | closeObject
  | comma
  | colon
  /-- A string. -/
  | text (s : String)
  /-- A number, a truth value or null. -/
  | atom (value : Json)

/-- Where the automaton is in a string. -/
inductive StringState
  | plain
  /-- After a backslash. -/
  | escape
  /-- Before the last `left` digits of an escape with the leading digits `value`; `high` is the
  first half of a surrogate pair that this escape must complete. -/
  | unit (high : Option Nat) (value left : Nat)
  /-- After the first half of a surrogate pair. -/
  | pair (high : Nat)
  /-- After the backslash that follows the first half of a surrogate pair. -/
  | pairEscape (high : Nat)

/-- What the automaton is in the middle of. -/
inductive Open
  | nothing
  /-- A number or literal, latest character first. -/
  | word (chars : List Char)
  /-- A string, latest character first. -/
  | string (chars : List Char) (state : StringState)

/-- The automaton between two characters: the tokens so far, latest first, and what is open. -/
structure Lexer where
  tokens : List Token := []
  opened : Open := .nothing

/-- The value of a word. -/
def atom? (word : List Char) : Option Json :=
  if word = "null".toList then some .null
  else if word = "true".toList then some (.bool true)
  else if word = "false".toList then some (.bool false)
  else (JsonNumber.ofText? word).map .number

/-- Blanks of JSON. -/
def isSpace (c : Char) : Bool := c == ' ' || c == '\n' || c == '\t' || c == '\r'

/-- The characters of numbers and literals. -/
def isWordChar (c : Char) : Bool := c.isAlphanum || c == '-' || c == '+' || c == '.'

/-- Reads a character between tokens. -/
def Lexer.between (tokens : List Token) (c : Char) : Option Lexer :=
  if isSpace c then some { tokens }
  else if isWordChar c then some { tokens, opened := .word [c] }
  else if c == '\x22' then some { tokens, opened := .string [] .plain }
  else if c == '[' then some { tokens := .openArray :: tokens }
  else if c == ']' then some { tokens := .closeArray :: tokens }
  else if c == '\x7b' then some { tokens := .openObject :: tokens }
  else if c == '\x7d' then some { tokens := .closeObject :: tokens }
  else if c == ',' then some { tokens := .comma :: tokens }
  else if c == ':' then some { tokens := .colon :: tokens }
  else none

/-- The character that an escape of one letter stands for. -/
def escaped? (c : Char) : Option Char :=
  if c == '\x22' || c == '\x5c' || c == '/' then some c
  else if c == 'b' then some '\x08'
  else if c == 'f' then some '\x0c'
  else if c == 'n' then some '\n'
  else if c == 'r' then some '\r'
  else if c == 't' then some '\t'
  else none

/-- The value of a hexadecimal digit. -/
def hexDigit? (c : Char) : Option Nat :=
  if isHexDigit c then some (digitValue c) else none

/-- Whether a number is the first half of a surrogate pair. -/
def isHigh (n : Nat) : Bool := 0xD800 ≤ n && n ≤ 0xDBFF

/-- Whether a number is the second half of a surrogate pair. -/
def isLow (n : Nat) : Bool := 0xDC00 ≤ n && n ≤ 0xDFFF

/-- Ends an escape with the four digits `n`. -/
def endUnit (chars : List Char) (high : Option Nat) (n : Nat) :
    Option (List Char × StringState) :=
  match high with
  | some h =>
    if isLow n then
      some (Char.ofNat (0x10000 + (h - 0xD800) * 0x400 + (n - 0xDC00)) :: chars, .plain)
    else none
  | none =>
    if isHigh n then some (chars, .pair n)
    else if isLow n then none
    else some (Char.ofNat n :: chars, .plain)

/-- Reads a character of a string. A quotation mark in plain state is left to `Lexer.step`. -/
def stringStep (chars : List Char) (c : Char) : StringState → Option (List Char × StringState)
  | .plain =>
    if c == '\x5c' then some (chars, .escape)
    else if c.toNat < 0x20 then none
    else some (c :: chars, .plain)
  | .escape =>
    if c == 'u' then some (chars, .unit none 0 4)
    else (escaped? c).map fun e => (e :: chars, .plain)
  | .unit high value left =>
    (hexDigit? c).bind fun d =>
      if left ≤ 1 then endUnit chars high (value * 16 + d)
      else some (chars, .unit high (value * 16 + d) (left - 1))
  | .pair high => if c == '\x5c' then some (chars, .pairEscape high) else none
  | .pairEscape high => if c == 'u' then some (chars, .unit (some high) 0 4) else none

/-- Reads one character. -/
def Lexer.step (l : Lexer) (c : Char) : Option Lexer :=
  match l.opened with
  | .nothing => between l.tokens c
  | .word chars =>
    if isWordChar c then some { l with opened := .word (c :: chars) }
    else (atom? chars.reverse).bind fun value => between (.atom value :: l.tokens) c
  | .string chars .plain =>
    if c == '\x22' then some { tokens := .text (String.ofList chars.reverse) :: l.tokens }
    else (stringStep chars c .plain).map fun (cs, s) => { l with opened := .string cs s }
  | .string chars state =>
    (stringStep chars c state).map fun (cs, s) => { l with opened := .string cs s }

/-- The tokens when the text ends, in order. -/
def Lexer.finish? (l : Lexer) : Option (List Token) :=
  match l.opened with
  | .nothing => some l.tokens.reverse
  | .word chars => (atom? chars.reverse).map fun value => (Token.atom value :: l.tokens).reverse
  | .string _ _ => none

/-- The tokens of a text. -/
def tokens? (s : List Char) : Option (List Token) :=
  (s.foldlM Lexer.step {}).bind Lexer.finish?

end Gatekeeper.Json
