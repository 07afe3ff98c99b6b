import HdlExpr.Plain
import HdlExpr.Decimal.Shortest

/-!
# Text of doubles

A double is written with its shortest digits, positionally or with an exponent.  A `Layout` holds
the decisions in which two formats differ.
-/

namespace HdlExpr.Decimal

/-- How a double is laid out. -/
structure Layout where
  /-- The least decimal exponent that is written positionally. -/
  positionalFrom : Int
  /-- The least decimal exponent above it that is not. -/
  positionalBelow : Int
  /-- The least number of digits of a written exponent. -/
  exponentWidth : Nat

/-- Plain decimal from `0.0001` to six digits before the point, two digits of exponent. -/
def Layout.general : Layout := ⟨-4, 6, 2⟩

/-- Plain decimal from `0.000001` to twenty-one digits before the point. -/
def Layout.json : Layout := ⟨-6, 21, 1⟩

/-- Plain decimal for every double. -/
def Layout.positional : Layout := ⟨-400, 400, 1⟩

def withZeros (width : Nat) (digits : List Char) : List Char :=
  List.replicate (width - digits.length) '0' ++ digits

/-- `d.ddde±XX`, without a point for a single digit. -/
def Scientific.exponential (x : Scientific) (width : Nat) : List Char :=
  let mantissa := match x.digits with
    | d :: e :: rest => d :: '.' :: e :: rest
    | single => single
  let sign := if x.exponent < 0 then '-' else '+'
  mantissa ++ 'e' :: sign :: withZeros width (Nat.toDigits 10 x.exponent.natAbs)

/-- Plain decimal, with a point only before a fraction. -/
def Scientific.positional (x : Scientific) : List Char :=
  if x.exponent < 0 then
    '0' :: '.' :: List.replicate (x.exponent.natAbs - 1) '0' ++ x.digits
  else
    let whole := x.exponent.toNat + 1
    let fraction := x.digits.drop whole
    let digits := x.digits.take whole
    digits ++ List.replicate (whole - digits.length) '0' ++
      (if fraction.isEmpty then [] else '.' :: fraction)

def Layout.render (layout : Layout) (x : Scientific) : List Char :=
  if x.exponent < layout.positionalFrom ∨ layout.positionalBelow ≤ x.exponent then
    x.exponential layout.exponentWidth
  else x.positional

/-- The shortest digits of the positive finite double with this bit pattern. -/
def shortestOfBits (bits : Nat) : Scientific :=
  let fraction := bits % fractionCount
  let biased : Nat := bits / fractionCount
  if biased = 0 then (Rounding.ofBinary fraction (-1074) false).shortest
  else
    let isPower := fraction = 0 && biased ≠ 1
    (Rounding.ofBinary (fractionCount + fraction) (biased - 1075) isPower).shortest

/-- The text of any double; the infinities carry their sign, and so does a negative zero. -/
def Layout.float (layout : Layout) (x : Float) : String :=
  if x.isNaN then "NaN"
  else
    let bits := x.toBits.toNat
    let magnitude := bits % halfCount
    let negative := halfCount ≤ bits
    if magnitude = 2047 * fractionCount then (if negative then "-Inf" else "+Inf")
    else
      let digits := if magnitude = 0 then ['0'] else layout.render (shortestOfBits magnitude)
      String.ofList (if negative then '-' :: digits else digits)

end HdlExpr.Decimal
