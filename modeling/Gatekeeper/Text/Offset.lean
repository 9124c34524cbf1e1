import Gatekeeper.Text.Utf8
import Mathlib.Data.PFun

set_option autoImplicit false

/-!
# Byte offsets

A text can be gone through by the bytes of its encoding: a byte is looked at, the bytes behind an
offset are searched, and the part between two offsets is taken out. An offset cuts a text in two
only if it lies between two characters (`IsBoundary`). There is no part of a text that begins or
ends anywhere else, and no byte behind the end, so a computation that asks for one is stopped.

A `Scan` is such a computation. It keeps every use that is made of an offset, which may be in place
or not (`Use.InPlace`), and it may contain loops that go on forever (`Scan.loop`).
-/

namespace Gatekeeper.Text

/-! ## Offsets -/

/-- The number of bytes of a text. -/
def byteLength (s : List Char) : Nat := (Utf8.encode s).length

/-- Whether an offset lies between two characters of a text or at one of its ends. -/
def IsBoundary (s : List Char) (i : Nat) : Prop :=
  ∃ before after, s = before ++ after ∧ byteLength before = i

/-- What stands on the two sides of an offset, if it is a boundary. -/
def divide? : List Char → Nat → Option (List Char × List Char)
  | s, 0 => some ([], s)
  | [], _ + 1 => none
  | c :: s, i + 1 =>
    if c.utf8Size ≤ i + 1 then
      (divide? s (i + 1 - c.utf8Size)).map fun (before, after) => (c :: before, after)
    else none

/-- The part of a text between two offsets, if both are boundaries and the first is not behind the
second. -/
def slice? (s : List Char) (i j : Nat) : Option (List Char) :=
  match divide? s j with
  | none => none
  | some (front, _) => (divide? front i).map (·.2)

/-! ## Kinds of bytes -/

/-- The ASCII digits as bytes. -/
def isDigitByte (b : UInt8) : Bool := 0x30 ≤ b && b ≤ 0x39

/-- The ASCII letters as bytes. -/
def isLetterByte (b : UInt8) : Bool := (0x41 ≤ b && b ≤ 0x5A) || (0x61 ≤ b && b ≤ 0x7A)

/-! ## Uses of offsets -/

/-- A use of offsets of a text. -/
inductive Use
  /-- The byte at the offset is looked at. -/
  | byte (s : List Char) (i : Nat)
  /-- The bytes from the offset on are searched. -/
  | bytesFrom (s : List Char) (i : Nat)
  /-- The part between the offsets is taken out. -/
  | slice (s : List Char) (i j : Nat)

/-- Whether the offsets are where they have to be. A byte can be looked at wherever there is one. A
text, and the bytes of a text, are only cut between two characters. -/
def Use.InPlace : Use → Prop
  | byte s i => i < byteLength s
  | bytesFrom s i => IsBoundary s i
  | slice s i j => i ≤ j ∧ IsBoundary s i ∧ IsBoundary s j

/-- A computation that uses offsets: the uses that it makes, in order, and its answer. There is no
answer if the last use has stopped it, and there is nothing at all if it goes on forever. -/
def Scan (α : Type) : Type := Part (List Use × Option α)

namespace Scan

instance : Monad Scan where
  pure a := Part.some ([], some a)
  bind p f := Part.bind p fun
    | (uses, none) => Part.some (uses, none)
    | (uses, some a) => Part.map (fun (later, answer) => (uses ++ later, answer)) (f a)

/-- The byte at an offset. -/
def byte (s : List Char) (i : Nat) : Scan UInt8 := Part.some ([.byte s i], (Utf8.encode s)[i]?)

/-- The offset of the first byte of a kind from an offset on, or the end of the text. -/
def findByte (p : UInt8 → Bool) (s : List Char) (i : Nat) : Scan Nat :=
  Part.some ([.bytesFrom s i],
    if i ≤ byteLength s then some (i + ((Utf8.encode s).drop i).findIdx p) else none)

/-- The part of a text between two offsets. -/
def slice (s : List Char) (i j : Nat) : Scan (List Char) := Part.some ([.slice s i j], slice? s i j)

/-- What a turn of a loop comes to: a state with which the loop goes on, or its answer. -/
inductive Turn (σ α : Type)
  | goOn (s : σ)
  | done (a : α)

/-- A turn that is taken behind earlier uses: the loop has come to its end, or it goes on. -/
def takeTurn {σ α : Type} (turn : σ → Scan (Turn σ α)) :
    List Use × σ →. (List Use × Option α) ⊕ (List Use × σ) := fun (earlier, s) =>
  Part.map (fun
    | (uses, none) => .inl (earlier ++ uses, none)
    | (uses, some (.done a)) => .inl (earlier ++ uses, some a)
    | (uses, some (.goOn t)) => .inr (earlier ++ uses, t)) (turn s)

/-- A loop that takes turns until there is an answer. One that goes on forever comes to nothing. -/
def loop {σ α : Type} (turn : σ → Scan (Turn σ α)) (s : σ) : Scan α :=
  PFun.fix (takeTurn turn) ([], s)

end Scan

end Gatekeeper.Text
