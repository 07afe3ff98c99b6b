import HdlExpr.Plain

/-!
# Nearest double

The double next to a decimal or a binary number, ties to the even mantissa, found in exact
arithmetic.
-/

namespace HdlExpr.Decimal

/-- `numerator / denominator` rounded to the nearest whole number, ties to even. -/
def roundHalfEven (numerator denominator : Nat) : Nat :=
  let below := numerator / denominator
  let gap := 2 * (numerator % denominator)
  if gap < denominator || (gap == denominator && below % 2 == 0) then below else below + 1

/-- The exponent of the last mantissa bit of the double that holds the ratio: 53 bits from the
leading one, but never below the least subnormal. -/
def unitExponent (numerator denominator : Nat) : Int :=
  let guess : Int := (numerator.log2 : Int) - denominator.log2
  let isBelow := numerator * Nat.pow 2 (-guess).toNat < denominator * Nat.pow 2 guess.toNat
  let leading := if isBelow then guess - 1 else guess
  max (leading - 52) (-1074)

/-- The bit pattern of the double nearest to a positive ratio, infinity when it is too large. -/
def nearestBits (numerator denominator : Nat) : Nat :=
  let unit := unitExponent numerator denominator
  let mantissa :=
    roundHalfEven (numerator * Nat.pow 2 (-unit).toNat) (denominator * Nat.pow 2 unit.toNat)
  let bits := ((unit + 1074).toNat) * fractionCount + mantissa
  min bits (2047 * fractionCount)

/-- The double nearest to `mantissa * 10 ^ exponent`. -/
def nearest (negative : Bool) (mantissa : Nat) (exponent : Int) : Float :=
  let size : Int := (Nat.toDigits 10 mantissa).length + exponent
  let bits :=
    if mantissa = 0 ∨ size < -400 then 0
    else if 400 < size then 2047 * fractionCount
    else nearestBits (mantissa * Nat.pow 10 exponent.toNat) (Nat.pow 10 (-exponent).toNat)
  Float.ofBits ((bits + if negative then halfCount else 0).toUInt64)

/-- The double nearest to `mantissa * 2 ^ exponent`. -/
def nearestBinary (negative : Bool) (mantissa : Nat) (exponent : Int) : Float :=
  let bits :=
    if mantissa = 0 then 0
    else nearestBits (mantissa * Nat.pow 2 exponent.toNat) (Nat.pow 2 (-exponent).toNat)
  Float.ofBits ((bits + if negative then halfCount else 0).toUInt64)

end HdlExpr.Decimal
