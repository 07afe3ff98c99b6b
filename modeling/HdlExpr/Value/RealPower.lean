/-!
# Powers of doubles

Zero, one, the infinities and half exponents follow the usual conventions; every other power
multiplies mantissas by repeated squaring and keeps the binary exponent apart, so that nothing
overflows on the way.
-/

namespace HdlExpr.RealPower

def infinity : Float := 1.0 / 0.0

def nan : Float := 0.0 / 0.0

/-- The sign bit, which zeros and infinities have too. -/
def signBit (x : Float) : Bool := x.toBits &&& 0x8000000000000000 != 0

/-- Whether `x` is an odd whole number. -/
def isOdd (x : Float) : Bool :=
  x.abs < 9007199254740992.0 && x.floor == x && x.abs.toUInt64 % 2 == 1

/-- `(mantissa * x ^ power, …)` with binary exponents apart: `x` has the exponent `exponent`, and
`total` is the exponent of the product so far.  Far outside the range of doubles it stops early. -/
def squareMultiply (x mantissa : Float) (exponent total : Int) (power : Nat) : Float × Int :=
  if power = 0 then (mantissa, total)
  else if exponent < -4096 ∨ 4096 < exponent then (mantissa, total + exponent)
  else
    let (mantissa, total) :=
      if power % 2 = 1 then (mantissa * x, total + exponent) else (mantissa, total)
    let square := x * x
    let (square, exponent) :=
      if square < 0.5 then (square + square, 2 * exponent - 1) else (square, 2 * exponent)
    squareMultiply square mantissa exponent total (power / 2)
termination_by power

/-- `x ^ y` for operands that are no special case. -/
def general (x y : Float) : Float :=
  let whole := y.abs.floor
  let fraction := y.abs - whole
  if fraction != 0.0 && x < 0.0 then nan
  else if whole ≥ 9223372036854775808.0 then
    if x == -1.0 then 1.0
    else if (x.abs < 1.0) == (y > 0.0) then 0.0
    else infinity
  else
    let (whole, fraction) :=
      if fraction > 0.5 then (whole + 1.0, fraction - 1.0) else (whole, fraction)
    let start := if fraction != 0.0 then Float.exp (fraction * Float.log x) else 1.0
    let (mantissa, exponent) := x.frExp
    let (result, total) := squareMultiply mantissa start exponent 0 whole.toUInt64.toNat
    if y < 0.0 then (1.0 / result).scaleB (-total) else result.scaleB total

/-- `0 ^ y` for `y` other than zero; a negative zero keeps its sign under odd powers. -/
def ofZero (x y : Float) : Float :=
  if y < 0.0 then (if signBit x && isOdd y then -infinity else infinity)
  else if signBit x && isOdd y then x else 0.0

/-- `x ^ y`, not a number where there is no real answer. -/
def power (x y : Float) : Float :=
  if y == 0.0 || x == 1.0 then 1.0
  else if y == 1.0 then x
  else if x.isNaN || y.isNaN then nan
  else if x == 0.0 then ofZero x y
  else if y.isInf then
    if x == -1.0 then 1.0
    else if (x.abs < 1.0) == (y > 0.0) then 0.0
    else infinity
  else if x.isInf then
    if x < 0.0 then ofZero (-0.0) (-y)
    else if y < 0.0 then 0.0 else infinity
  else if y == 0.5 then x.sqrt
  else if y == -0.5 then 1.0 / x.sqrt
  else general x y

end HdlExpr.RealPower
