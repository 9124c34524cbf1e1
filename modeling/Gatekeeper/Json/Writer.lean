import Gatekeeper.Json.Number

set_option autoImplicit false

/-!
# Writing JSON

Compact text: no blanks, members in the order of their names, and escapes only where they are
needed.
-/

namespace Gatekeeper.Json

open Text

/-- A character as it is written inside a string. -/
def escapeChar (c : Char) : List Char :=
  if c == '\x22' then ['\x5c', '\x22']
  else if c == '\x5c' then ['\x5c', '\x5c']
  else if c == '\x08' then ['\x5c', 'b']
  else if c == '\x0c' then ['\x5c', 'f']
  else if c == '\n' then ['\x5c', 'n']
  else if c == '\r' then ['\x5c', 'r']
  else if c == '\t' then ['\x5c', 't']
  else if c.toNat < 0x20 then
    ['\x5c', 'u', '0', '0', hexDigit (c.toNat / 16), hexDigit (c.toNat % 16)]
  else [c]

/-- A string in quotation marks. -/
def writeText (s : String) : List Char :=
  '\x22' :: s.toList.flatMap escapeChar ++ ['\x22']

/-- The text of a value. -/
def write : Json → List Char
  | null => "null".toList
  | bool true => "true".toList
  | bool false => "false".toList
  | number n => n.write
  | string s => writeText s
  | array [] => ['[', ']']
  | array (v :: vs) => '[' :: write v ++ writeItems vs
  | object [] => ['\x7b', '\x7d']
  | object ((name, v) :: ms) => '\x7b' :: writeText name ++ ':' :: write v ++ writeMembers ms
where
  /-- The items of an array after the first, and its end. -/
  writeItems : List Json → List Char
    | [] => [']']
    | v :: vs => ',' :: write v ++ writeItems vs
  /-- The members of an object after the first, and its end. -/
  writeMembers : List (String × Json) → List Char
    | [] => ['\x7d']
    | (name, v) :: ms => ',' :: writeText name ++ ':' :: write v ++ writeMembers ms

end Gatekeeper.Json
