import Gatekeeper.Decimal.Shortest
import Gatekeeper.Json.Basic

set_option autoImplicit false

/-!
# Numbers in JSON texts

Reading and writing. A number without fraction and exponent that fits 64 bits stays whole. Any other
number is read in two rounded steps: the leading digits that fit 64 bits are rounded to double
precision, and the result is multiplied or divided by a rounded power of ten. Numbers beyond the
double range are refused.
-/

namespace Gatekeeper.JsonNumber

open Text Decimal

/-- The parts of a number as it is written. -/
structure Parts where
  negative : Bool
  /-- The digits before the point. -/
  whole : List Char
  /-- The digits after the point, if there is one. -/
  fraction : Option (List Char)
  /-- The exponent's sign, true for minus, and digits. -/
  exponent : Option (Bool × List Char)

/-- The exponent in what follows the digits of a number. -/
def Parts.exponent? : List Char → Option (Option (Bool × List Char))
  | [] => some none
  | c :: s =>
    if c == 'e' || c == 'E' then
      let (negative, digits) :=
        match s with
        | '+' :: r => (false, r)
        | '-' :: r => (true, r)
        | r => (false, r)
      if digits.isEmpty || !digits.all isDigit then none else some (some (negative, digits))
    else none

/-- The fraction and the exponent in what follows the whole part of a number. -/
def Parts.fraction? : List Char → Option (Option (List Char) × Option (Bool × List Char))
  | '.' :: s =>
    let digits := s.takeWhile isDigit
    if digits.isEmpty then none
    else (Parts.exponent? (s.dropWhile isDigit)).map (some digits, ·)
  | s => (Parts.exponent? s).map (none, ·)

/-- The parts of a written number. A whole part of several digits does not start with zero. -/
def Parts.ofText? (s : List Char) : Option Parts :=
  let (negative, s) :=
    match s with
    | '-' :: r => (true, r)
    | r => (false, r)
  let whole := s.takeWhile isDigit
  if whole.isEmpty || (whole.head? == some '0' && whole.length != 1) then none
  else (Parts.fraction? (s.dropWhile isDigit)).map fun (fraction, exponent) =>
    { negative, whole, fraction, exponent }

/-- Appends digits to a number as long as it fits 64 bits; what does not fit is left over. -/
def appendDigits (n : Nat) : List Char → Nat × List Char
  | [] => (n, [])
  | c :: r =>
    if n * 10 + digitValue c < word then appendDigits (n * 10 + digitValue c) r else (n, c :: r)

/-- The double nearest to a power of ten of at most 308. -/
def powerOfTen (k : Nat) : Binary := (binary64.nearest? (tenTo k) 1).getD ⟨false, 0, 0⟩

/-- Divides by a power of ten, in steps of at most `10 ^ 308`. -/
def divideByPower (x : Binary) (k : Nat) : Option Binary :=
  if k ≤ 308 then binary64.div? x (powerOfTen k)
  else if x.isZero then some x
  else (binary64.div? x (powerOfTen 308)).bind fun y => divideByPower y (k - 308)
  termination_by k

/-- The double for `significand * 10 ^ exponent`, or none where it is out of range. -/
def scale? (significand : Nat) (exponent : Int) : Option Binary :=
  (binary64.nearest? significand 1).bind fun x =>
    match exponent with
    | .ofNat k =>
      if k ≤ 308 then binary64.mul? x (powerOfTen k) else if x.isZero then some x else none
    | .negSucc k => divideByPower x (k + 1)

/-- The largest exponent that is taken at its value. -/
def exponentLimit : Nat := twoTo 31 - 1

/-- The magnitude of a number with a fraction, an exponent, or digits beyond 64 bits. -/
def Parts.double? (p : Parts) : Option Binary :=
  let (n, left) := appendDigits 0 p.whole
  let fraction := p.fraction.getD []
  let (n, unused) := appendDigits n fraction
  let point : Int := left.length - (fraction.length - unused.length : Nat)
  match p.exponent with
  | none => scale? n point
  | some (negative, digits) =>
    let e := valueOf 10 digits
    if e ≤ exponentLimit then scale? n (if negative then point - e else point + e)
    else if n = 0 || negative then some ⟨false, 0, binary64.least⟩
    else none

/-- The number with the given parts. Minus zero is a double. -/
def ofParts? (p : Parts) : Option JsonNumber :=
  let n := valueOf 10 p.whole
  if p.fraction.isNone && p.exponent.isNone
      && (if p.negative then 0 < n && n ≤ twoTo 63 else n < word) then
    some (.whole (if p.negative then -n else n))
  else p.double?.map fun x => .double { x with negative := p.negative }

/-- Reads a number. -/
def ofText? (s : List Char) : Option JsonNumber := (Parts.ofText? s).bind ofParts?

/-- The place of the point from which on an exponent is written. -/
def lastPlainPoint : Int := 16

/-- The place of the point up to which an exponent is written. -/
def firstPlainPoint : Int := -5

/-- Writes digits with the point after the `point`-th of them, and always with a fraction. -/
def writePlain (digits : List Char) (point : Int) : List Char :=
  if point ≤ 0 then "0.".toList ++ List.replicate (-point).toNat '0' ++ digits
  else
    let n := point.toNat
    if digits.length ≤ n then digits ++ List.replicate (n - digits.length) '0' ++ ".0".toList
    else digits.take n ++ '.' :: digits.drop n

/-- Writes digits with the point after the first of them and an exponent. -/
def writeScientific (digits : List Char) (point : Int) : List Char :=
  let e := point - 1
  let exponent := 'e' :: (if e < 0 then '-' else '+') :: writeNat e.natAbs
  match digits with
  | d :: r :: rest => d :: '.' :: r :: rest ++ exponent
  | _ => digits ++ exponent

/-- Writes a double: its shortest digits, plain where the first digit's place is between `10 ^ -5`
and `10 ^ 15`, with an exponent elsewhere. -/
def writeDouble (x : Binary) : List Char :=
  let d := binary64.shortest x
  let digits := writeNat d.digits
  let point := digits.length + d.exponent
  (if x.negative then ['-'] else []) ++
    (if x.isZero then "0.0".toList
    else if firstPlainPoint < point && point ≤ lastPlainPoint then writePlain digits point
    else writeScientific digits point)

/-- Writes a number. -/
def write : JsonNumber → List Char
  | whole n => writeInt n
  | double x => writeDouble x

end Gatekeeper.JsonNumber
