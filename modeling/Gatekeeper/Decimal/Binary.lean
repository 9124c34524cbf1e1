set_option autoImplicit false

/-!
# Binary floating-point numbers

A finite floating-point number is held as what it is: a sign, a whole mantissa and a power of two.
A format bounds the mantissa and the exponent. `Format.nearest?` rounds a quotient of whole numbers
to the nearest number of a format, a tie going to the even mantissa; all arithmetic here is exact
arithmetic followed by that rounding.
-/

namespace Gatekeeper.Decimal

/-- A power of two. -/
def twoTo (n : Nat) : Nat := Nat.pow 2 n

/-- A power of ten. -/
def tenTo (n : Nat) : Nat := Nat.pow 10 n

/-- A floating-point format. -/
structure Format where
  /-- The number of bits of a mantissa. -/
  precision : Nat
  /-- The least exponent of two. -/
  least : Int
  /-- Numbers reach up to two to this power, which itself is too large. -/
  limit : Int

/-- The 64-bit format. -/
def binary64 : Format := ⟨53, -1074, 1024⟩

/-- The 32-bit format. -/
def binary32 : Format := ⟨24, -149, 128⟩

/-- A finite number `± mantissa * 2 ^ exponent`. Zero has a sign. -/
structure Binary where
  negative : Bool := false
  mantissa : Nat
  exponent : Int
  deriving DecidableEq, Repr

namespace Binary

/-- The magnitude is `numerator / denominator`. -/
def numerator (x : Binary) : Nat := x.mantissa * twoTo x.exponent.toNat

/-- The magnitude is `numerator / denominator`. -/
def denominator (x : Binary) : Nat := twoTo (-x.exponent).toNat

/-- Whether the number is zero of either sign. -/
def isZero (x : Binary) : Bool := x.mantissa == 0

end Binary

/-- The whole number nearest to `num / den`, a tie going to the even one. -/
def roundEven (num den : Nat) : Nat :=
  let q := num / den
  let r := num % den
  if 2 * r < den then q
  else if den < 2 * r then q + 1
  else if q % 2 = 0 then q else q + 1

/-- The exponent with which `num / den` has a mantissa of full precision. -/
def Format.exponentOf (f : Format) (num den : Nat) : Int :=
  let k : Int := (num.log2 : Int) - den.log2
  let full := if num * twoTo (-k).toNat < den * twoTo k.toNat then k - 1 else k
  max f.least (full - f.precision + 1)

/-- The number of the format nearest to `num / den`, where that is not too large. -/
def Format.nearest? (f : Format) (num den : Nat) : Option Binary :=
  if num = 0 then some ⟨false, 0, f.least⟩
  else
    let e := f.exponentOf num den
    let m := roundEven (num * twoTo (-e).toNat) (den * twoTo e.toNat)
    let x : Binary := if m < twoTo f.precision then ⟨false, m, e⟩ else ⟨false, m / 2, e + 1⟩
    if x.numerator < x.denominator * twoTo f.limit.toNat then some x else none

/-- The product of two magnitudes, rounded. -/
def Format.mul? (f : Format) (x y : Binary) : Option Binary :=
  f.nearest? (x.numerator * y.numerator) (x.denominator * y.denominator)

/-- The quotient of two magnitudes, rounded. -/
def Format.div? (f : Format) (x y : Binary) : Option Binary :=
  f.nearest? (x.numerator * y.denominator) (x.denominator * y.numerator)

/-- The sum of two magnitudes, rounded. -/
def Format.add? (f : Format) (x y : Binary) : Option Binary :=
  f.nearest? (x.numerator * y.denominator + y.numerator * x.denominator)
    (x.denominator * y.denominator)

end Gatekeeper.Decimal
