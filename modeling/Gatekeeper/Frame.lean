import Gatekeeper.Json.Reader
import Gatekeeper.Json.Writer
import Gatekeeper.Text.Blank
import Gatekeeper.Text.Find
import Gatekeeper.Text.Utf8

set_option autoImplicit false

/-!
# Framed messages

A JSON value travels as a frame: header lines, a blank line, and a body whose length in bytes the
`Content-Length` header gives. Writing is `encode`. Reading is an automaton, the `Decoder`, that
takes one byte at a time, so it does not matter how the bytes arrive. It reports a value or a fault
for each frame and goes on with the next byte after a fault.
-/

namespace Gatekeeper.Frame

open Text

/-- The longest body that is read. -/
def maxBody : Nat := 4 * 1024 * 1024

/-- The header that gives the length of the body. -/
def lengthHeader : String := "Content-Length"

/-- Why a frame could not be read. -/
inductive Fault
  /-- A header line is not UTF-8. -/
  | garbledHeader (fault : Utf8.Fault)
  /-- The stream ended between header lines. -/
  | truncatedHeaders
  /-- No header gave the length of the body. -/
  | missingLength
  /-- The length is not a number that fits 64 bits. -/
  | badLength (value : String)
  /-- The length is beyond `maxBody`. -/
  | tooLarge (length : Nat)
  /-- The stream ended inside the body. -/
  | shortBody
  /-- The body is not a JSON text. -/
  | malformedBody
  deriving DecidableEq, Repr

/-- The wording of a fault. -/
def Fault.message : Fault → String
  | .garbledHeader fault => "I/O error while reading header line: " ++ fault.message
  | .truncatedHeaders => "stream ended inside a header block"
  | .missingLength => "header block has no Content-Length"
  | .badLength value => "invalid Content-Length value '" ++ value ++ "'"
  | .tooLarge length =>
    "Content-Length " ++ toString length ++ " exceeds maximum " ++ toString maxBody
  | .shortBody => "I/O error while reading frame body: early eof"
  | .malformedBody => "malformed JSON-RPC body:"

/-- What the reader reports. -/
inductive Outcome
  | value (v : Json)
  | fault (f : Fault)
  deriving Repr

/-- The reader between two bytes. -/
inductive Decoder
  /-- In the headers: the bytes of the open line, latest first, whether it is the first line of its
  frame, and the length given so far. -/
  | headers (line : List UInt8) (first : Bool) (length : Option Nat)
  /-- In the body: the number of bytes still to come, and those read, latest first. -/
  | body (missing : Nat) (bytes : List UInt8)
  deriving Repr

namespace Decoder

/-- The reader between two frames. -/
def start : Decoder := .headers [] true none

end Decoder

/-- What comes of a byte: more of the same frame, or a report. -/
inductive Progress
  | more (d : Decoder)
  | report (o : Outcome)
  deriving Repr

/-- Whether two texts are equal up to the case of ASCII letters. -/
def sameName (a b : List Char) : Bool := a.map Char.toLower == b.map Char.toLower

/-- What a trimmed header line says about the length of the body: nothing, a length, or the text
that is not one. -/
def lengthIn (line : List Char) : Option (Except String Nat) :=
  match cutAt? (· == ':') line with
  | none => none
  | some (key, value) =>
    if sameName (trim key) lengthHeader.toList then
      let value := trim value
      some (match readNat64? value with
        | some n => .ok n
        | none => .error (String.ofList value))
    else none

/-- The value of a body. -/
def readBody (bytes : List UInt8) : Outcome :=
  match Utf8.decode bytes with
  | .error _ => .fault .malformedBody
  | .ok s =>
    match Json.read? s with
    | some v => .value v
    | none => .fault .malformedBody

namespace Decoder

/-- Ends the headers. An empty body has no value. -/
def endHeaders : Option Nat → Progress
  | none => .report (.fault .missingLength)
  | some n =>
    if maxBody < n then .report (.fault (.tooLarge n))
    else if n = 0 then .report (readBody [])
    else .more (.body n [])

/-- Ends a header line. -/
def endLine (line : List UInt8) (length : Option Nat) : Progress :=
  match Utf8.decode line with
  | .error fault => .report (.fault (.garbledHeader fault))
  | .ok s =>
    let s := trim s
    if s.isEmpty then endHeaders length
    else
      match lengthIn s with
      | none => .more (.headers [] false length)
      | some (.ok n) => .more (.headers [] false (some n))
      | some (.error value) => .report (.fault (.badLength value))

/-- Reads one byte. -/
def step (d : Decoder) (b : UInt8) : Progress :=
  match d with
  | .headers line first length =>
    if b = 10 then endLine (b :: line).reverse length else .more (.headers (b :: line) first length)
  | .body missing bytes =>
    if missing ≤ 1 then .report (readBody (b :: bytes).reverse)
    else .more (.body (missing - 1) (b :: bytes))

/-- What is reported when the stream ends. Between two frames that is nothing. An open line counts
as a line. -/
def finish : Decoder → Option Outcome
  | .headers [] first _ => if first then none else some (.fault .truncatedHeaders)
  | .headers (b :: line) _ length =>
    match endLine (b :: line).reverse length with
    | .report o => some o
    | .more (.headers _ _ _) => some (.fault .truncatedHeaders)
    | .more (.body _ _) => some (.fault .shortBody)
  | .body _ _ => some (.fault .shortBody)

/-- The next report on a stream, none at its end, and what is left of the stream after it. -/
def next (d : Decoder) : List UInt8 → Option Outcome × List UInt8
  | [] => (d.finish, [])
  | b :: rest =>
    match d.step b with
    | .more d => d.next rest
    | .report o => (some o, rest)

/-- Reads on to the next report: the report with the bytes after it, or, where the bytes end before
one, the reader that has taken them all. -/
def pull (d : Decoder) : List UInt8 → (Outcome × List UInt8) ⊕ Decoder
  | [] => .inr d
  | b :: rest =>
    match d.step b with
    | .more d => d.pull rest
    | .report o => .inl (o, rest)

/-- The reports on the bytes that have arrived, and the reader after them. -/
def feed (d : Decoder) : List UInt8 → List Outcome × Decoder
  | [] => ([], d)
  | b :: rest =>
    match d.step b with
    | .more d => d.feed rest
    | .report o =>
      let (os, d) := start.feed rest
      (o :: os, d)

end Decoder

/-- The next frame of a stream: its report, none at the end of the stream, and what is left. -/
def read (bytes : List UInt8) : Option Outcome × List UInt8 := Decoder.start.next bytes

/-- All reports on a stream up to its end. -/
def readAll (bytes : List UInt8) : List Outcome :=
  let (os, d) := Decoder.start.feed bytes
  os ++ d.finish.toList

/-- The body of a frame. -/
def body (v : Json) : List UInt8 := Utf8.encode v.write

/-- The headers of a frame with a body of so many bytes. -/
def header (length : Nat) : List UInt8 :=
  Utf8.encode (lengthHeader.toList ++ ": ".toList ++ writeNat length ++ "\r\n\r\n".toList)

/-- The frame that carries a value. -/
def encode (v : Json) : List UInt8 := header (body v).length ++ body v

end Gatekeeper.Frame
