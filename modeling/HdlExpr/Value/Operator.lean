import HdlExpr.Value.Basic
import HdlExpr.Value.RealPower

/-!
# Operators on values

Every operator is total.  An operand that is invalid, or of a kind that the operator does not
take, gives the invalid value.  Integers are computed on as 64-bit words: the result of arithmetic
has no width and is signed when both operands are, and the bitwise operators and shifts keep
widths.
-/

namespace HdlExpr

/-- What a power by repeated squaring keeps from turn to turn: the product so far, the square that
comes next, and the bits of the exponent that are left. -/
structure Word.Squaring where
  product : Word
  square : Word
  exponent : Word
  deriving DecidableEq, Repr

namespace Word.Squaring

/-- One turn takes the lowest bit off the exponent. -/
def turn (s : Squaring) : Squaring where
  product := if s.exponent.getLsbD 0 then s.product * s.square else s.product
  square := s.square * s.square
  exponent := s.exponent >>> 1

theorem toNat_exponent_turn (s : Squaring) : s.turn.exponent.toNat = s.exponent.toNat / 2 := by
  rw [turn, BitVec.toNat_ushiftRight, Nat.shiftRight_eq_div_pow, Nat.pow_one]

/-- Turns until nothing is left of the exponent. -/
def finish (s : Squaring) : Word :=
  if s.exponent = 0 then s.product else s.turn.finish
termination_by s.exponent.toNat
decreasing_by
  rename_i h
  have hpos : 0 < s.exponent.toNat := Nat.pos_of_ne_zero fun h0 => h (BitVec.eq_of_toNat_eq h0)
  rw [toNat_exponent_turn]
  exact Nat.div_lt_self hpos (by decide)

end Word.Squaring

/-- The power of a word, modulo 2 ^ 64. -/
def Word.power (x y : Word) : Word := Word.Squaring.finish ⟨1, x, y⟩

namespace Value

/-- How a binary operator sees its operands: reals as soon as one is real, and strings only in
pairs. -/
inductive Operands where
  | integers (a b : Integer)
  | reals (x y : Float)
  | texts (s t : String)
  | mismatched

def operands (a b : Value) : Operands :=
  match a.datum, b.datum with
  | .integer i, .integer j => .integers i j
  | .real x, .real y => .reals x y
  | .real x, .integer _ => .reals x b.toFloat
  | .integer _, .real y => .reals a.toFloat y
  | .text s, .text t => .texts s t
  | _, _ => .mismatched

/-- The value itself, no longer assignable. -/
def plus (v : Value) : Value := if v.isValid then v.asRvalue else invalid

/-- Negation. -/
def minus (v : Value) : Value :=
  match v.datum with
  | .integer i => ofInteger (Integer.clipped (-i.word) i.width i.signed)
  | .real x => real (-x)
  | _ => invalid

/-- Logical negation of a number, as zero or one. -/
def not (v : Value) : Value :=
  match v.datum with
  | .integer _ | .real _ => ofBool (!v.truth)
  | _ => invalid

def complement (v : Value) : Value :=
  match v.datum with
  | .integer i => ofInteger (Integer.clipped (~~~i.bits) i.width i.signed)
  | _ => invalid

/-- The value moved by one in either direction; its width, sign and assignability stay. -/
def step (up : Bool) (v : Value) : Value :=
  match v.datum with
  | .integer i =>
    { ofInteger (Integer.clipped (if up then i.word + 1 else i.word - 1) i.width i.signed) with
      lvalue := v.lvalue }
  | .real x => { real (if up then x + 1.0 else x - 1.0) with lvalue := v.lvalue }
  | _ => invalid

def increment (v : Value) : Value := v.step true

def decrement (v : Value) : Value := v.step false

/-- The shape of arithmetic: words under `onWords`, told whether both operands are signed, and
doubles under `onReals`. -/
def arithmetic (onWords : Word → Word → Bool → Option Word)
    (onReals : Float → Float → Option Float) (a b : Value) : Value :=
  match operands a b with
  | .integers i j =>
    let signed := i.signed && j.signed
    match onWords i.word j.word signed with
    | some w => ofInteger ⟨w, 0, signed⟩
    | none => invalid
  | .reals x y =>
    match onReals x y with
    | some z => real z
    | none => invalid
  | _ => invalid

def add : Value → Value → Value :=
  arithmetic (fun x y _ => some (x + y)) (fun x y => some (x + y))

def sub : Value → Value → Value :=
  arithmetic (fun x y _ => some (x - y)) (fun x y => some (x - y))

def mul : Value → Value → Value :=
  arithmetic (fun x y _ => some (x * y)) (fun x y => some (x * y))

/-- Division, toward zero for integers; there is none by zero. -/
def div : Value → Value → Value :=
  arithmetic
    (fun x y signed => if y = 0 then none else some (if signed then x.sdiv y else x / y))
    (fun x y => if y == 0.0 then none else some (x / y))

/-- The remainder with the sign of the dividend, for integers only. -/
def mod : Value → Value → Value :=
  arithmetic
    (fun x y signed => if y = 0 then none else some (if signed then x.srem y else x % y))
    (fun _ _ => none)

/-- A power of words.  With a negative exponent only the powers of one and minus one are not
zero, and those of zero do not exist. -/
def wordPower (x y : Word) (signed : Bool) : Option Word :=
  if signed && y.toInt < 0 then
    if x = 0 then none
    else if x = 1 then some 1
    else if x = -1 then some (if y.getLsbD 0 then x else 1)
    else some 0
  else some (Word.power x y)

def power : Value → Value → Value :=
  arithmetic wordPower fun x y =>
    let z := RealPower.power x y
    if z.isNaN then none else some z

/-- The order of two doubles; one that is not a number counts as equal to everything. -/
def compareReals (x y : Float) : Ordering :=
  if x < y then .lt else if y < x then .gt else .eq

/-- The order of two values: signed integers by the numbers they denote, other integers by their
bit patterns, strings by their characters. -/
def compare? (a b : Value) : Option Ordering :=
  match operands a b with
  | .integers i j =>
    some <| if i.signed && j.signed then compare i.word.toInt j.word.toInt
      else compare i.word.toNat j.word.toNat
  | .reals x y => some (compareReals x y)
  | .texts s t => some (compare s t)
  | .mismatched => none

def relation (holds : Ordering → Bool) (a b : Value) : Value :=
  match compare? a b with
  | some o => ofBool (holds o)
  | none => invalid

def greater : Value → Value → Value := relation (· == .gt)

def greaterEqual : Value → Value → Value := relation (· != .lt)

def less : Value → Value → Value := relation (· == .lt)

def lessEqual : Value → Value → Value := relation (· != .gt)

def equal : Value → Value → Value := relation (· == .eq)

def notEqual : Value → Value → Value := relation (· != .eq)

/-- The shape of the logical connectives, which need both operands. -/
def connective (f : Bool → Bool → Bool) (a b : Value) : Value :=
  if a.isValid && b.isValid then ofBool (f a.truth b.truth) else invalid

def logicalAnd : Value → Value → Value := connective (· && ·)

def logicalOr : Value → Value → Value := connective (· || ·)

/-- The shape of the bitwise operators: the larger width when both operands have one. -/
def bitwise (f : Word → Word → Word) (a b : Value) : Value :=
  match operands a b with
  | .integers i j =>
    let width := if i.width ≠ 0 ∧ j.width ≠ 0 then max i.width j.width else 0
    ofInteger (Integer.clipped (f i.word j.word) width (i.signed && j.signed))
  | _ => invalid

def bitAnd : Value → Value → Value := bitwise (· &&& ·)

def bitOr : Value → Value → Value := bitwise (· ||| ·)

def bitXor : Value → Value → Value := bitwise (· ^^^ ·)

def bitXnor : Value → Value → Value := bitwise (fun x y => ~~~(x ^^^ y))

/-- The shape of the shifts: the amount is the bit pattern of the right operand, and the result
keeps the width and the sign of the left one. -/
def shift (f : Integer → Nat → Word) (a b : Value) : Value :=
  match operands a b with
  | .integers i j => ofInteger (Integer.clipped (f i j.bits.toNat) i.width i.signed)
  | _ => invalid

def shiftLeft : Value → Value → Value :=
  shift fun i n => if 64 ≤ n then 0 else i.bits <<< n

/-- The shift to the right that brings in zeros. -/
def shiftRight : Value → Value → Value :=
  shift fun i n => if 64 ≤ n then 0 else i.bits.clip i.width >>> n

def arithShiftLeft : Value → Value → Value := shiftLeft

/-- The shift to the right that brings in the sign of a signed operand. -/
def arithShiftRight (a b : Value) : Value :=
  if a.isSigned then shift (fun i n => i.word.sshiftRight (min n 63)) a b else shiftRight a b

/-- The bits between two positions, in either order, as an unsigned value of that many bits. -/
def slice (v : Value) (hi lo : Int) : Value :=
  match v.datum with
  | .integer i =>
    let high := max hi lo
    let low := min hi lo
    if low < 0 ∨ (i.limit : Int) ≤ high then invalid
    else sized (i.bits >>> low.toNat) (high - low + 1)
  | _ => invalid

end Value

end HdlExpr
