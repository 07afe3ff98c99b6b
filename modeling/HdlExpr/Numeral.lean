import HdlExpr.Decimal.Nearest
import HdlExpr.Text.Printable
import HdlExpr.Value.Basic

/-!
# Numerals

Numbers at the start of a text.  White space and one sign may stand in front, and whatever follows
the digits does not matter.  A number that is too large takes the nearest end of its range.
-/

namespace HdlExpr

/-- A number of two words. -/
structure Word.Pair where
  high : Word
  low : Word
  deriving DecidableEq, Repr

def Word.mulAdd (x y z : Word) : Word.Pair :=
  let product := x.setWidth 128 * y.setWidth 128
  let low := product.setWidth 64
  let sum := low + z
  let high := product.extractLsb' 64 64
  ⟨if sum < low then high + 1 else high, sum⟩

namespace Numeral

def isDigit (c : Char) : Bool := '0' ≤ c && c ≤ '9'

/-- The value of a digit in a base of up to 36; 36 for other characters. -/
def digitValue (c : Char) : Nat :=
  if isDigit c then c.toNat - '0'.toNat
  else if 'a' ≤ c && c ≤ 'z' then c.toNat - 'a'.toNat + 10
  else if 'A' ≤ c && c ≤ 'Z' then c.toNat - 'A'.toNat + 10
  else 36

/-- Takes one sign from the front and tells whether it was a minus. -/
def splitSign : List Char → Bool × List Char
  | '-' :: rest => (true, rest)
  | '+' :: rest => (false, rest)
  | cs => (false, cs)

/-- Takes the mark `0x` from the front when a hexadecimal digit follows it. -/
def dropHexMark : List Char → List Char
  | '0' :: x :: d :: rest =>
    if (x == 'x' || x == 'X') && digitValue d < 16 then d :: rest else '0' :: x :: d :: rest
  | cs => cs

/-- What has been read of a number: its low 64 bits, and whether it ever took more. -/
structure Register where
  word : Word := 0
  exceeded : Bool := false
  deriving DecidableEq, Repr

def Register.push (base : Nat) (r : Register) (c : Char) : Register :=
  let next := r.word.mulAdd (BitVec.ofNat 64 base) (BitVec.ofNat 64 (digitValue c))
  ⟨next.low, r.exceeded || next.high != 0⟩

/-- The word written in a base.  A minus sign negates in two's complement, and a number of more
than 64 bits is all ones whatever its sign. -/
def based (base : Nat) (text : String) : Word :=
  let (negative, cs) := splitSign (Text.trimLeft text.toList)
  let cs := if base = 16 then dropHexMark cs else cs
  let r := (cs.takeWhile (digitValue · < base)).foldl (Register.push base) {}
  if r.exceeded then BitVec.allOnes 64 else if negative then -r.word else r.word

/-- A number with one more decimal digit, or nothing if it exceeds `2 ^ 63 - 1` then. -/
def appendDigit? (number : Word) (c : Char) : Option Word :=
  let d := BitVec.ofNat 64 (digitValue c)
  if (BitVec.intMax 64 - d) / 10 < number then none else some (number * 10 + d)

/-- The number that decimal digits write, or nothing once it exceeds `2 ^ 63 - 1`. -/
def boundedNumber? (digits : List Char) : Option Word := digits.foldlM appendDigit? 0

/-- The signed 64-bit number written in decimal, held at the ends of its range. -/
def decimal (text : String) : Int :=
  let (negative, cs) := splitSign (Text.trimLeft text.toList)
  match boundedNumber? (cs.takeWhile isDigit) with
  | some number => (if negative then -number else number).toInt
  | none => (if negative then BitVec.intMin 64 else BitVec.intMax 64).toInt

def signLength : List Char → Nat
  | '+' :: _ | '-' :: _ => 1
  | _ => 0

def digitsLength (cs : List Char) : Nat := (cs.takeWhile isDigit).length

def fractionLength : List Char → Nat
  | '.' :: rest => digitsLength rest + 1
  | _ => 0

/-- The length of an exponent, zero unless it has a digit. -/
def exponentLength : List Char → Nat
  | e :: rest =>
    if e == 'e' || e == 'E' then
      let sign := signLength rest
      let digits := digitsLength (rest.drop sign)
      if digits = 0 then 0 else 1 + sign + digits
    else 0
  | [] => 0

/-- The length of the longest start of the form
`[sign] digits [. digits] [(e|E) [sign] digits]` with a digit before the exponent. -/
def realPrefix (cs : List Char) : Nat :=
  let sign := signLength cs
  let whole := digitsLength (cs.drop sign)
  let fraction := fractionLength (cs.drop (sign + whole))
  if whole + (fraction - 1) = 0 then 0
  else
    let mantissa := sign + whole + fraction
    mantissa + exponentLength (cs.drop mantissa)

/-- The number that digits write in decimal. -/
def ofDigits (digits : List Char) : Nat :=
  digits.foldl (fun n c => n * 10 + digitValue c) 0

/-- The number that the digits of an exponent write.  It is so large from ten thousand on that
further digits do not count. -/
def exponentOf (digits : List Char) : Nat :=
  digits.foldl (fun n c => if n < 10000 then n * 10 + digitValue c else n) 0

/-- The double that a text of the form above writes. -/
def readReal (cs : List Char) : Float :=
  let mantissa := cs.takeWhile fun c => c != 'e' && c != 'E'
  let exponent := (cs.drop mantissa.length).drop 1
  let places := ((mantissa.dropWhile (· != '.')).filter isDigit).length
  let (down, power) := splitSign exponent
  let power : Int := if down then -(exponentOf power) else exponentOf power
  Decimal.nearest (splitSign mantissa).1 (ofDigits (mantissa.filter isDigit)) (power - places)

/-! ## Whole texts -/

/-- Whether underscores stand between digits only; `digit` tells that a digit stands before. -/
def separates (isDigit : Char → Bool) : Bool → List Char → Bool
  | _, [] => true
  | digit, '_' :: rest => digit && rest.head?.any isDigit && separates isDigit false rest
  | _, c :: rest => separates isDigit (isDigit c) rest

def isHexDigit (c : Char) : Bool := digitValue c < 16

/-- The double that hexadecimal digits write, with a point perhaps and a power of two after `p`. -/
def hexReal? (negative : Bool) (cs : List Char) : Option Float :=
  let mantissa := cs.takeWhile fun c => c != 'p' && c != 'P'
  let whole := mantissa.takeWhile (· != '.')
  let fraction := (mantissa.drop whole.length).drop 1
  let digits := whole ++ fraction
  let (down, power) := splitSign ((cs.drop mantissa.length).drop 1)
  if digits.isEmpty || power.isEmpty || !digits.all isHexDigit || !power.all isDigit then none
  else
    let exponent : Int := if down then -(exponentOf power) else exponentOf power
    some (Decimal.nearestBinary negative (digits.foldl (fun n c => n * 16 + digitValue c) 0)
      (exponent - 4 * fraction.length))

/-- The double that decimal digits write, with a sign perhaps. -/
def decimalReal? (cs : List Char) : Option Float :=
  if cs ≠ [] ∧ realPrefix cs = cs.length then some (readReal cs) else none

/-- Takes the mark of hexadecimal digits from the front. -/
def hexBody? : List Char → Option (List Char)
  | '0' :: x :: rest => if x == 'x' || x == 'X' then some rest else none
  | _ => none

/-- The double that a whole text writes, in decimal or after `0x` in hexadecimal digits.
Underscores may stand between digits. -/
def written? (cs : List Char) : Option Float :=
  let (negative, body) := splitSign cs
  match hexBody? body with
  | some digits =>
    if separates isHexDigit true digits then hexReal? negative (digits.filter (· != '_')) else none
  | none => if separates isDigit false body then decimalReal? (cs.filter (· != '_')) else none

/-! ## Starts of texts -/

/-- The double that `read` finds in the longest start of at most `n` characters that it accepts,
zero when it accepts none. -/
def longestRead (read : List Char → Option Float) (cs : List Char) : Nat → Float
  | 0 => 0.0
  | n + 1 =>
    match read (cs.take (n + 1)) with
    | some x => x
    | none => longestRead read cs n

/-- The real number at the start of a text, zero when there is none. -/
def real (text : String) : Float :=
  let cs := Text.trimLeft text.toList
  longestRead written? cs (realPrefix cs)

end Numeral

end HdlExpr
