import Gatekeeper.Decimal.Binary
import Gatekeeper.Text.Find
import Gatekeeper.Toml.Value

set_option autoImplicit false

/-!
# Words of a TOML document

The values that are written without quotation marks: truth values, integers in four bases, numbers
with a fraction or an exponent, dates and times.
-/

namespace Gatekeeper.Toml.Scalar

open Text

/-- The digits of a run in which single underscores stand between digits. -/
def digitRun? (isDigitOf : Char → Bool) (s : List Char) : Option (List Char) :=
  let groups := s.splitOn '_'
  if groups.all fun g => !g.isEmpty && g.all isDigitOf then some groups.flatten else none

/-- A sign, true for minus, and what follows it. -/
def sign : List Char → Bool × List Char
  | '+' :: s => (false, s)
  | '-' :: s => (true, s)
  | s => (false, s)

/-- The digits of a decimal number: without a leading zero unless that is all. -/
def decimal? (s : List Char) : Option (List Char) :=
  (digitRun? isDigit s).filter fun ds => ds.head? != some '0' || s.length == 1

/-- An integer. Only a decimal one may have a sign. -/
def integer? (s : List Char) : Option Int :=
  match s with
  | '0' :: 'x' :: r => (digitRun? isHexDigit r).map fun ds => (valueOf 16 ds : Int)
  | '0' :: 'o' :: r =>
    (digitRun? (fun c => '0' ≤ c && c ≤ '7') r).map fun ds => (valueOf 8 ds : Int)
  | '0' :: 'b' :: r =>
    (digitRun? (fun c => c == '0' || c == '1') r).map fun ds => (valueOf 2 ds : Int)
  | _ =>
    let (negative, r) := sign s
    (decimal? r).map fun ds => if negative then -(valueOf 10 ds : Int) else valueOf 10 ds

/-- Whether a character begins an exponent. -/
def isExponentMark (c : Char) : Bool := c == 'e' || c == 'E'

/-- Decimal exponents beyond this leave the range of doubles whatever the digits before them. -/
def exponentBound : Nat := 100000

/-- Whether a number of the given digits, so many of them after the point, with the given exponent
is within the range of doubles. -/
def inRange (digits : List Char) (places : Nat) (negative : Bool) (exponent : List Char) : Bool :=
  let n := valueOf 10 digits
  let e := valueOf 10 exponent
  if n = 0 then true
  else if negative then true
  else if exponentBound + places < e then false
  else (Decimal.binary64.nearest? (n * Decimal.tenTo e) (Decimal.tenTo places)).isSome

/-- Whether a text is a number with a fraction, an exponent or both, and not beyond the range of
doubles. -/
def isFraction (s : List Char) : Bool :=
  let (_, r) := sign s
  let (mantissa, exponent) :=
    match cutAt? isExponentMark r with
    | some (m, e) => (m, some e)
    | none => (r, none)
  let (whole, fraction) :=
    match cutAt? (· == '.') mantissa with
    | some (w, f) => (w, some f)
    | none => (mantissa, none)
  let expDigits := exponent.map fun e => ((sign e).1, digitRun? isDigit (sign e).2)
  match decimal? whole, fraction.map (digitRun? isDigit), expDigits with
  | some w, some (some f), none => inRange (w ++ f) f.length false []
  | some w, none, some (n, some e) => inRange w 0 n e
  | some w, some (some f), some (n, some e) => inRange (w ++ f) f.length n e
  | _, _, _ => false

/-- Whether a text is a number without digits. -/
def isSpecial (s : List Char) : Bool :=
  let (_, r) := sign s
  r == "inf".toList || r == "nan".toList

/-- The value of a run of exactly so many digits. -/
def fixed? (width : Nat) (s : List Char) : Option Nat :=
  if s.length = width && s.all isDigit then some (valueOf 10 s) else none

/-- The number of days of a month. -/
def daysIn (year month : Nat) : Nat :=
  if month = 2 then
    if year % 4 = 0 && (year % 100 != 0 || year % 400 = 0) then 29 else 28
  else if month = 4 || month = 6 || month = 9 || month = 11 then 30
  else 31

/-- Whether a text is a date: year, month and day. -/
def isDate (s : List Char) : Bool :=
  match s.splitOn '-' with
  | [y, m, d] =>
    match fixed? 4 y, fixed? 2 m, fixed? 2 d with
    | some y, some m, some d => 1 ≤ m && m ≤ 12 && 1 ≤ d && d ≤ daysIn y m
    | _, _, _ => false
  | _ => false

/-- Whether a text is the seconds of a time: two digits, and a fraction or none. -/
def isSeconds (s : List Char) : Bool :=
  let (whole, fraction) := (s.takeWhile (· != '.'), s.dropWhile (· != '.'))
  match fixed? 2 whole with
  | some n => n ≤ 60 && (fraction.isEmpty || (fraction.tail != [] && fraction.tail.all isDigit))
  | none => false

/-- Whether two texts are the hours and minutes of a time. -/
def isHourMinute (h m : List Char) : Bool :=
  match fixed? 2 h, fixed? 2 m with
  | some h, some m => h ≤ 23 && m ≤ 59
  | _, _ => false

/-- Whether a text is a time of day. The seconds may be left out. -/
def isTime (s : List Char) : Bool :=
  match s.splitOn ':' with
  | [h, m] => isHourMinute h m
  | [h, m, sec] => isHourMinute h m && isSeconds sec
  | _ => false

/-- Whether a text is a distance from universal time. -/
def isOffset (s : List Char) : Bool :=
  match s.splitOn ':' with
  | [h, m] => isHourMinute h m
  | _ => false

/-- Whether a text is a time of day with or without an offset. -/
def isZonedTime (s : List Char) : Bool :=
  match cutAt? (fun c => c == 'Z' || c == 'z' || c == '+' || c == '-') s with
  | none => isTime s
  | some (t, o) =>
    let mark := (s.drop t.length).head?
    isTime t && (if mark == some 'Z' || mark == some 'z' then o.isEmpty else isOffset o)

/-- Whether a text is a date, a time, or both. -/
def isDateTime (s : List Char) : Bool :=
  isTime s || isDate s ||
    match s.drop 10 with
    | c :: t => (c == 'T' || c == 't' || c == ' ') && isDate (s.take 10) && isZonedTime t
    | [] => false

/-- The value of a word. -/
def value? (s : List Char) : Option Value :=
  if s == "true".toList then some (.boolean true)
  else if s == "false".toList then some (.boolean false)
  else
    match integer? s with
    | some n => some (.integer n)
    | none =>
      if isSpecial s || isFraction s then some (.float s)
      else if isDateTime s then some (.date s)
      else none

end Gatekeeper.Toml.Scalar
