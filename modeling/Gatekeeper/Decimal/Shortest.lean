import Gatekeeper.Decimal.Binary
import Gatekeeper.Text.Decimal

set_option autoImplicit false

/-!
# Shortest decimal digits

The shortest run of decimal digits that reads back as a given floating-point number and, of several
such runs, the nearest. For one digit, two digits and so on the neighbours of the number on that
decimal grid are tried; the first grid with a hit gives the digits.
-/

namespace Gatekeeper.Decimal

/-- A decimal number `digits * 10 ^ exponent`. -/
structure Digits where
  digits : Nat
  exponent : Int
  deriving DecidableEq, Repr

/-- A quotient of whole numbers. -/
structure Ratio where
  num : Nat
  den : Nat

/-- The order of quotients. -/
def Ratio.lt (a b : Ratio) : Bool := a.num * b.den < b.num * a.den

/-- A decimal number as a quotient. -/
def Digits.ratio (d : Digits) : Ratio :=
  ⟨d.digits * tenTo d.exponent.toNat, tenTo (-d.exponent).toNat⟩

/-- The numbers that read back as a given one: all between the ends, and the ends themselves if
`closed`. -/
structure Interval where
  low : Ratio
  high : Ratio
  closed : Bool

/-- Whether the interval holds a decimal number. -/
def Interval.holds (i : Interval) (d : Digits) : Bool :=
  let r := d.ratio
  if i.closed then !r.lt i.low && !i.high.lt r else i.low.lt r && r.lt i.high

/-- What rounds to `x`: half a unit of the last place to both sides, but only a quarter below the
least mantissa of full precision, where the numbers below lie closer together. -/
def Format.interval (f : Format) (x : Binary) : Interval :=
  let unit := twoTo x.exponent.toNat
  let den := 4 * x.denominator
  let below := if x.mantissa = twoTo (f.precision - 1) && f.least < x.exponent then 1 else 2
  { low := ⟨(4 * x.mantissa - below) * unit, den⟩
    high := ⟨(4 * x.mantissa + 2) * unit, den⟩
    closed := x.mantissa % 2 = 0 }

/-- The number of decimal digits of a whole number. -/
def digitCount (n : Nat) : Nat := (Text.writeNat n).length

/-- The number of digits that `num / den` has before the point; if it is below one, minus the number
of zeros after the point. -/
def magnitude (num den : Nat) : Int :=
  if den ≤ num then digitCount (num / den) else 1 - digitCount ((den - 1) / num)

/-- The better of the two neighbours of `num / den` on the grid of multiples of `10 ^ k`. -/
def Interval.neighbour? (i : Interval) (num den : Nat) (k : Int) : Option Digits :=
  let n := num * tenTo (-k).toNat
  let d := den * tenTo k.toNat
  let below : Digits := ⟨n / d, k⟩
  let above : Digits := ⟨n / d + 1, k⟩
  match i.holds below, i.holds above with
  | true, true => some ⟨roundEven n d, k⟩
  | true, false => some below
  | false, true => some above
  | false, false => none

/-- Tries grids of `count` more digits, from coarse to fine. -/
def Interval.search (i : Interval) (num den : Nat) (k : Int) : Nat → Digits
  | 0 => ⟨roundEven (num * tenTo (-k).toNat) (den * tenTo k.toNat), k⟩
  | count + 1 => (i.neighbour? num den k).getD (i.search num den (k - 1) count)

/-- The same number without trailing zeros among its digits. -/
def Digits.strip (d : Digits) : Digits :=
  let zeros := ((Text.writeNat d.digits).reverse.takeWhile (· == '0')).length
  ⟨d.digits / tenTo zeros, d.exponent + zeros⟩

/-- The shortest digits of the magnitude of `x`. Seventeen digits always suffice for 64 bits. -/
def Format.shortest (f : Format) (x : Binary) : Digits :=
  if x.isZero then ⟨0, 0⟩
  else
    let num := x.numerator
    let den := x.denominator
    ((f.interval x).search num den (magnitude num den - 1) 17).strip

end Gatekeeper.Decimal
