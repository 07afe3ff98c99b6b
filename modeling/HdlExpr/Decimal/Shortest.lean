/-!
# Shortest decimal digits

The decimal number with the fewest digits that rounds to a given binary floating point number,
found in exact arithmetic.  Of two such numbers the nearer one is taken, and of two equally near
ones the even one.
-/

namespace HdlExpr.Decimal

/-- A positive decimal number `d₀.d₁d₂… × 10 ^ exponent`, with `d₀` not zero. -/
structure Scientific where
  digits : List Char
  exponent : Int
  deriving DecidableEq, Repr

/-- A positive binary number with the reals that round to it: `value`, `low` and `high` over the
common denominator `scale`, the ends included when `closed`. -/
structure Rounding where
  value : Nat
  low : Nat
  high : Nat
  scale : Nat
  closed : Bool

/-- The interval around `mantissa * 2 ^ exponent`.  Below a power of two the neighbour is half as
far away, which `narrow` tells. -/
def Rounding.ofBinary (mantissa : Nat) (exponent : Int) (narrow : Bool) : Rounding :=
  let up := Nat.pow 2 (exponent - 2).toNat
  { value := 4 * mantissa * up
    low := (4 * mantissa - (if narrow then 1 else 2)) * up
    high := (4 * mantissa + 2) * up
    scale := Nat.pow 2 (2 - exponent).toNat
    closed := mantissa % 2 == 0 }

/-- Multiplies everything by `10 ^ (-power)`. -/
def Rounding.shift (r : Rounding) (power : Int) : Rounding :=
  let up := Nat.pow 10 (-power).toNat
  { r with
    value := r.value * up
    low := r.low * up
    high := r.high * up
    scale := r.scale * Nat.pow 10 power.toNat }

/-- Whether the whole number `n` lies in the interval. -/
def Rounding.contains (r : Rounding) (n : Nat) : Bool :=
  if r.closed then r.low ≤ n * r.scale && n * r.scale ≤ r.high
  else r.low < n * r.scale && n * r.scale < r.high

/-- The whole number next to the value that lies in the interval, if there is one. -/
def Rounding.whole? (r : Rounding) : Option Nat :=
  let below := r.value / r.scale
  let gap := 2 * (r.value % r.scale)
  let nearer := if gap < r.scale || (gap == r.scale && below % 2 == 0) then below else below + 1
  if r.contains nearer then some nearer
  else if r.contains below then some below
  else if r.contains (below + 1) then some (below + 1)
  else none

/-- The least `k ≤ fuel` with `10 ^ k * value ≥ scale`. -/
def leadingZeros (scale : Nat) : Nat → Nat → Nat
  | 0, _ => 0
  | fuel + 1, value => if scale ≤ value then 0 else leadingZeros scale fuel (10 * value) + 1

def Rounding.exponent (r : Rounding) : Int :=
  if r.scale ≤ r.value then (Nat.toDigits 10 (r.value / r.scale)).length - 1
  else -(leadingZeros r.scale 400 r.value : Int)

def stripZeros (digits : List Char) : List Char :=
  (digits.reverse.dropWhile (· == '0')).reverse

/-- The number `n * 10 ^ power`. -/
def Scientific.ofWhole (n : Nat) (power : Int) : Scientific :=
  let digits := Nat.toDigits 10 n
  { digits := stripZeros digits, exponent := power + digits.length - 1 }

/-- The decimal with the fewest digits in the interval; seventeen digits are always enough for a
double. -/
def Rounding.shortest (r : Rounding) : Scientific :=
  let first := r.exponent
  let found := (List.range 17).findSome? fun (places : Nat) =>
    let power := first - places
    ((r.shift power).whole?).map fun n => Scientific.ofWhole n power
  found.getD (Scientific.ofWhole 0 0)

end HdlExpr.Decimal
