import Gatekeeper.Decimal.Binary

set_option autoImplicit false

/-!
# Whole numbers

Reading and writing natural numbers, in decimal for the most part. `readNat64?` is the reader for
every number that a user or a peer may write: an optional plus sign, then ASCII digits, with a value
that fits 64 bits.
-/

namespace Gatekeeper.Text

/-- The ASCII digits. -/
def isDigit (c : Char) : Bool := '0' ≤ c && c ≤ '9'

/-- The hexadecimal digits, in either case. -/
def isHexDigit (c : Char) : Bool := isDigit c || ('a' ≤ c && c ≤ 'f') || ('A' ≤ c && c ≤ 'F')

/-- The number of different values of a 64-bit word. -/
def word : Nat := Decimal.twoTo 64

/-- The value of a digit in a base of at most 36, letters in either case. -/
def digitValue (c : Char) : Nat :=
  if isDigit c then c.toNat - '0'.toNat
  else if 'a' ≤ c && c ≤ 'z' then c.toNat - 'a'.toNat + 10
  else c.toNat - 'A'.toNat + 10

/-- The value of a run of digits in the given base, most significant digit first. -/
def valueOf (base : Nat) (digits : List Char) : Nat :=
  digits.foldl (fun n c => n * base + digitValue c) 0

/-- The value of a non-empty run of decimal digits below the size of a 64-bit word. -/
def digits64? (s : List Char) : Option Nat :=
  if s.isEmpty || !s.all isDigit then none
  else if valueOf 10 s < word then some (valueOf 10 s) else none

/-- A number that fits 64 bits: an optional plus sign, then decimal digits. -/
def readNat64? : List Char → Option Nat
  | '+' :: s => digits64? s
  | s => digits64? s

/-- The hexadecimal digit for a number below sixteen, in lower case. -/
def hexDigit (n : Nat) : Char := Char.ofNat (if n < 10 then 48 + n else 87 + n)

/-- The hexadecimal digit for a number below sixteen, in upper case. -/
def upperHexDigit (n : Nat) : Char := Char.ofNat (if n < 10 then 48 + n else 55 + n)

/-- The decimal digits of `n`, without leading zeros. -/
def writeNat (n : Nat) : List Char := Nat.toDigits 10 n

/-- The decimal digits of `n` after a minus sign where it is negative. -/
def writeInt (n : Int) : List Char :=
  if n < 0 then '-' :: writeNat n.natAbs else writeNat n.natAbs

end Gatekeeper.Text
