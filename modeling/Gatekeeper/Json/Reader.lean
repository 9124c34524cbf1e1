import Gatekeeper.Json.Token

set_option autoImplicit false

/-!
# Reading JSON

A pushdown automaton over tokens. It holds the containers that are open, innermost first, and what
must come next. At most 127 containers may be open at once.
-/

namespace Gatekeeper.Json

/-- A container that is open, latest member first. -/
inductive Frame
  | array (items : List Json)
  /-- An object, and the name of the member whose value is being read. -/
  | object (members : List (String × Json)) (name : String)

/-- What must come next. -/
inductive Expect
  | value
  /-- The first item of an array, or its end. -/
  | firstItem
  /-- The first name of an object, or its end. -/
  | firstName (members : List (String × Json))
  | name (members : List (String × Json))
  | colon (members : List (String × Json)) (name : String)
  /-- A comma or an end, after the given value. -/
  | after (value : Json)

/-- The automaton between two tokens. -/
structure Reader where
  frames : List Frame := []
  expect : Expect := .value

/-- The greatest number of containers that may be open at once. -/
def maxDepth : Nat := 127

/-- Opens a container. -/
def Reader.push (frames : List Frame) (frame : Frame) (expect : Expect) : Option Reader :=
  if frames.length < maxDepth then some { frames := frame :: frames, expect } else none

/-- Reads the first token of a value. An object has no frame until its first name is read. -/
def Reader.start (frames : List Frame) : Token → Option Reader
  | .atom v => some { frames, expect := .after v }
  | .text s => some { frames, expect := .after (.string s) }
  | .openArray => push frames (.array []) .firstItem
  | .openObject => push frames (.object [] "") (.firstName [])
  | _ => none

/-- Reads a token after a value. -/
def Reader.continue (frames : List Frame) (value : Json) : Token → Option Reader
  | .comma =>
    match frames with
    | .array items :: rest => some { frames := .array (value :: items) :: rest, expect := .value }
    | .object members name :: rest =>
      some { frames := .object [] "" :: rest, expect := .name ((name, value) :: members) }
    | [] => none
  | .closeArray =>
    match frames with
    | .array items :: rest =>
      some { frames := rest, expect := .after (.array (value :: items).reverse) }
    | _ => none
  | .closeObject =>
    match frames with
    | .object members name :: rest =>
      some { frames := rest, expect := .after (ofMembers ((name, value) :: members).reverse) }
    | _ => none
  | _ => none

/-- Reads one token. -/
def Reader.step (r : Reader) (t : Token) : Option Reader :=
  match r.expect with
  | .value => start r.frames t
  | .firstItem =>
    match t with
    | .closeArray => some { frames := r.frames.tail, expect := .after (.array []) }
    | _ => start r.frames t
  | .firstName members =>
    match t with
    | .closeObject => some { frames := r.frames.tail, expect := .after (.object []) }
    | .text s => some { r with expect := .colon members s }
    | _ => none
  | .name members =>
    match t with
    | .text s => some { r with expect := .colon members s }
    | _ => none
  | .colon members name =>
    match t with
    | .colon => some { frames := .object members name :: r.frames.tail, expect := .value }
    | _ => none
  | .after value => Reader.continue r.frames value t

/-- The value when the tokens end. -/
def Reader.finish? (r : Reader) : Option Json :=
  match r.frames, r.expect with
  | [], .after value => some value
  | _, _ => none

/-- Reads a JSON text. -/
def read? (s : List Char) : Option Json :=
  (tokens? s).bind fun ts => (ts.foldlM Reader.step {}).bind Reader.finish?

end Gatekeeper.Json
