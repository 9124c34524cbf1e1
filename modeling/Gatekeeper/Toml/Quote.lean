import Gatekeeper.Text.Find
import Gatekeeper.Toml.Document
import Gatekeeper.Toml.Reader

set_option autoImplicit false

/-!
# Quoting strings

How a string is written in a TOML document. Of the four kinds of quotation the first is taken that
needs no escapes, in the order basic, literal, basic over several lines, literal over several lines;
where each of them would need one, the string is written with escapes.
-/

namespace Gatekeeper.Toml

open Text

/-- A kind of quotation. -/
structure Quotation where
  delimiter : Char
  multiline : Bool
  deriving DecidableEq, Repr

namespace Quotation

/-- The kinds of quotation, the better one first. -/
def all : List Quotation :=
  [⟨'\x22', false⟩, ⟨'\x27', false⟩, ⟨'\x22', true⟩, ⟨'\x27', true⟩]

/-- The marks around a string. -/
def marks (q : Quotation) : List Char := List.replicate (if q.multiline then 3 else 1) q.delimiter

/-- Whether a character is a control character that every kind of quotation must escape. -/
def isControl (c : Char) : Bool :=
  (c.toNat < 0x20 && c != '\t' && c != '\n') || c.toNat == 0x7F

/-- Whether a string can stand in quotation marks of this kind without escapes. In a basic string a
tab is written as an escape nevertheless. -/
def fits (q : Quotation) (s : List Char) : Bool :=
  !s.any isControl
    && (q.delimiter == '\x27' || !s.contains '\x5c')
    && (if q.multiline then !occursIn q.marks s else !s.contains q.delimiter && !s.contains '\n')

/-- A character as it is written in a basic string. -/
def escapeChar (multiline : Bool) (c : Char) : List Char :=
  if c == '\x08' then ['\x5c', 'b']
  else if c == '\t' then ['\x5c', 't']
  else if c == '\x0c' then ['\x5c', 'f']
  else if c == '\r' then ['\x5c', 'r']
  else if c == '\n' then (if multiline then ['\n'] else ['\x5c', 'n'])
  else if isControl c then
    ['\x5c', 'u', '0', '0', upperHexDigit (c.toNat / 16), upperHexDigit (c.toNat % 16)]
  else [c]

/-- A character as it is written in a basic string where quotation marks and backslashes need
escapes too. -/
def escapeAll (multiline : Bool) (c : Char) : List Char :=
  if c == '\x22' || c == '\x5c' then ['\x5c', c] else escapeChar multiline c

/-- A string in quotation marks of this kind, its characters written as `f` says. A string with line
ends starts on a new line. -/
def wrap (q : Quotation) (f : Char → List Char) (s : List Char) : List Char :=
  q.marks ++ (if q.multiline && s.contains '\n' then ['\n'] else []) ++ s.flatMap f ++ q.marks

end Quotation

/-- A string as it is written. -/
def quote (s : List Char) : List Char :=
  match Quotation.all.find? (·.fits s) with
  | some q =>
    if q.delimiter == '\x22' then q.wrap (Quotation.escapeChar q.multiline) s
    else q.wrap (fun c => [c]) s
  | none =>
    let q : Quotation := ⟨'\x22', s.contains '\n'⟩
    q.wrap (Quotation.escapeAll q.multiline) s

/-- A name as a part of a key: bare where that is possible. -/
def KeyPart.ofName (name : String) : KeyPart :=
  let s := name.toList
  { text := if !s.isEmpty && s.all OpenKey.isBare then s else
      Quotation.wrap ⟨'\x22', false⟩ (Quotation.escapeAll false) s
    name }

end Gatekeeper.Toml
