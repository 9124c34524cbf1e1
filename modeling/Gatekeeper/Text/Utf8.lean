set_option autoImplicit false

/-!
# UTF-8

A byte automaton for UTF-8. It reports, in order, the characters of a byte string and the places
where it is not UTF-8: a sequence broken by a byte that cannot continue it, or cut off by the end.
`decode` accepts well-formed input only and says where the first fault is; `decodeLossy` puts a
replacement character in the place of each fault.
-/

namespace Gatekeeper.Text.Utf8

/-- The UTF-8 encoding of a text. -/
def encode (s : List Char) : List UInt8 := s.flatMap String.utf8EncodeChar

/-- A sequence of which some bytes have been read. -/
structure Pending where
  /-- The bits read so far. -/
  bits : Nat
  /-- The number of bytes read so far. -/
  seen : Nat
  /-- The number of continuation bytes still to come. -/
  missing : Nat
  /-- The least byte that may come next. -/
  least : UInt8
  /-- The greatest byte that may come next. -/
  greatest : UInt8

/-- What the automaton reports. -/
inductive Item
  /-- A well-formed sequence. -/
  | char (c : Char)
  /-- A sequence of so many bytes, broken by the byte after it. -/
  | broken (length : Nat)
  /-- A sequence of so many bytes, cut off by the end of the input. -/
  | cut (length : Nat)

/-- The number of bytes that a report covers. -/
def Item.length : Item → Nat
  | .char c => c.utf8Size
  | .broken n => n
  | .cut n => n

/-- The automaton between two bytes: the reports so far, latest first, and the open sequence. -/
structure State where
  items : List Item := []
  pending : Option Pending := none

/-- Reads a byte outside a sequence. The ranges leave out over-long forms, surrogates and what lies
beyond the last code point. -/
def State.start (items : List Item) (b : UInt8) : State :=
  let n := b.toNat
  if n < 0x80 then { items := .char (Char.ofNat n) :: items }
  else if 0xC2 ≤ n && n ≤ 0xDF then
    { items, pending := some ⟨n % 0x20, 1, 1, 0x80, 0xBF⟩ }
  else if 0xE0 ≤ n && n ≤ 0xEF then
    let least := if n == 0xE0 then 0xA0 else 0x80
    let greatest := if n == 0xED then 0x9F else 0xBF
    { items, pending := some ⟨n % 0x10, 1, 2, least, greatest⟩ }
  else if 0xF0 ≤ n && n ≤ 0xF4 then
    let least := if n == 0xF0 then 0x90 else 0x80
    let greatest := if n == 0xF4 then 0x8F else 0xBF
    { items, pending := some ⟨n % 0x08, 1, 3, least, greatest⟩ }
  else { items := .broken 1 :: items }

/-- Reads one byte. -/
def State.step (st : State) (b : UInt8) : State :=
  match st.pending with
  | none => State.start st.items b
  | some p =>
    if p.least ≤ b && b ≤ p.greatest then
      let bits := p.bits * 0x40 + b.toNat % 0x40
      if p.missing ≤ 1 then { items := .char (Char.ofNat bits) :: st.items }
      else { st with pending := some ⟨bits, p.seen + 1, p.missing - 1, 0x80, 0xBF⟩ }
    else State.start (.broken p.seen :: st.items) b

/-- The reports on a whole input, in order. -/
def items (bytes : List UInt8) : List Item :=
  let st := bytes.foldl State.step {}
  match st.pending with
  | none => st.items.reverse
  | some p => (.cut p.seen :: st.items).reverse

/-- Why a byte string is not UTF-8. -/
inductive Fault
  /-- A sequence of `length` bytes that starts at `index` is broken. -/
  | invalid (length index : Nat)
  /-- The input ends inside the sequence that starts at `index`. -/
  | incomplete (index : Nat)
  deriving DecidableEq, Repr

/-- Collects the characters up to the first fault; `index` counts the bytes before `items`. -/
def collect (index : Nat) (chars : List Char) : List Item → Except Fault (List Char)
  | [] => .ok chars.reverse
  | .char c :: rest => collect (index + c.utf8Size) (c :: chars) rest
  | .broken n :: _ => .error (.invalid n index)
  | .cut _ :: _ => .error (.incomplete index)

/-- The characters of a byte string, if all of it is UTF-8. -/
def decode (bytes : List UInt8) : Except Fault (List Char) := collect 0 [] (items bytes)

/-- The characters of a byte string with U+FFFD in the place of each fault. -/
def decodeLossy (bytes : List UInt8) : List Char :=
  (items bytes).map fun
    | .char c => c
    | _ => Char.ofNat 0xFFFD

/-- The wording of a fault. -/
def Fault.message : Fault → String
  | .invalid length index =>
    "invalid utf-8 sequence of " ++ toString length ++ " bytes from index " ++ toString index
  | .incomplete index => "incomplete utf-8 byte sequence from index " ++ toString index

end Gatekeeper.Text.Utf8
