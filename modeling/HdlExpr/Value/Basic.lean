import HdlExpr.Decimal.Layout
import HdlExpr.Plain
import HdlExpr.Text.Quoted

/-!
# Values

A value is what a constant expression folds to: an integer of up to 64 bits with an optional
width and a sign, a real number, a string, or nothing at all.  It also remembers whether it was
read from a place that can be assigned.
-/

namespace HdlExpr

abbrev Word := BitVec 64

/-- The low `width` bits of a word; a width of zero keeps all 64. -/
def Word.clip (width : Nat) (w : Word) : Word :=
  if width = 0 then w else (w.setWidth width).setWidth 64

/-- An integer: its bits, its width (zero when it has none of its own) and its sign. -/
structure Integer where
  bits : Word
  width : Nat
  signed : Bool
  deriving DecidableEq, Repr, Inhabited

/-- What a value holds. -/
inductive Datum where
  | invalid
  | integer (i : Integer)
  | real (x : Float)
  | text (s : String)
  deriving Inhabited

/-- A datum, and whether it was read from an assignable place. -/
structure Value where
  datum : Datum
  lvalue : Bool := false
  deriving Inhabited

/-- The four kinds of value. -/
inductive Value.Kind where
  | invalid
  | integer
  | real
  | text
  deriving DecidableEq, Repr

def Value.Kind.name : Value.Kind → String
  | .invalid => "invalid"
  | .integer => "integer"
  | .real => "real"
  | .text => "string"

namespace Integer

/-- The bits as a 64-bit word, the sign bit of a narrow signed integer copied upward. -/
def word (i : Integer) : Word :=
  if i.signed && i.width != 0 then (i.bits.setWidth i.width).signExtend 64 else i.bits

def toInt (i : Integer) : Int :=
  if i.signed then i.word.toInt else i.bits.toNat

/-- The number of bits that a select can reach. -/
def limit (i : Integer) : Nat := if i.width = 0 then 64 else i.width

def clipped (bits : Word) (width : Nat) (signed : Bool) : Integer :=
  ⟨bits.clip width, width, signed⟩

end Integer

namespace Value

def invalid : Value := ⟨.invalid, false⟩

def ofInteger (i : Integer) : Value := ⟨.integer i, false⟩

def signed (w : Word) : Value := ofInteger ⟨w, 0, true⟩

def unsigned (w : Word) : Value := ofInteger ⟨w, 0, false⟩

/-- An unsigned integer cut to `width` bits; a width outside 1 to 64 is no width. -/
def sized (w : Word) (width : Int) : Value :=
  if width ≤ 0 ∨ 64 < width then unsigned w
  else ofInteger (Integer.clipped w width.toNat false)

/-- The single bit that is the low bit of `w`. -/
def scalar (w : Word) : Value := sized (w &&& 1) 1

/-- One for true and zero for false. -/
def ofBool (b : Bool) : Value := unsigned (if b then 1 else 0)

def real (x : Float) : Value := ⟨.real x, false⟩

def text (s : String) : Value := ⟨.text s, false⟩

/-- The value of plain data; collections and null have none.  A truth value is a single bit. -/
def ofPlain? : Plain → Option Value
  | .int i => some (signed (BitVec.ofInt 64 i))
  | .uint n => some (unsigned (BitVec.ofNat 64 n))
  | .real x => some (real x)
  | .bool b => some (scalar (if b then 1 else 0))
  | .text s => some (text s)
  | .null | .list _ | .map _ => none

def kind (v : Value) : Kind :=
  match v.datum with
  | .invalid => .invalid
  | .integer _ => .integer
  | .real _ => .real
  | .text _ => .text

def isValid (v : Value) : Bool :=
  match v.datum with
  | .invalid => false
  | _ => true

def isSigned (v : Value) : Bool :=
  match v.datum with
  | .integer i => i.signed
  | _ => false

/-- The width of a sized integer, zero for everything else. -/
def width (v : Value) : Nat :=
  match v.datum with
  | .integer i => i.width
  | _ => 0

def isScalar (v : Value) : Bool :=
  match v.datum with
  | .integer i => i.width == 1
  | _ => false

def asLvalue (v : Value) : Value := { v with lvalue := true }

def asRvalue (v : Value) : Value := { v with lvalue := false }

/-- A double cut to a 64-bit signed whole number; what does not fit becomes the least one. -/
def wholePart (x : Float) : Int :=
  if -9223372036854775808.0 ≤ x && x < 9223372036854775808.0 then x.toInt64.toInt
  else -9223372036854775808

/-- The value as a 64-bit signed number: the bits read as two's complement, or a real cut toward
zero. -/
def toInt64 (v : Value) : Int :=
  match v.datum with
  | .integer i => i.word.toInt
  | .real x => wholePart x
  | _ => 0

def toWord (v : Value) : Word :=
  match v.datum with
  | .integer i => i.bits
  | .real x => BitVec.ofInt 64 (wholePart x)
  | _ => 0

/-- The double nearest to a number. -/
def toFloat (v : Value) : Float :=
  match v.datum with
  | .real x => x
  | .integer i => Float.ofInt i.toInt
  | _ => 0.0 / 0.0

def content (v : Value) : String :=
  match v.datum with
  | .text s => s
  | _ => ""

/-- Whether the value counts as true: a number other than zero, or a string with characters. -/
def truth (v : Value) : Bool :=
  match v.datum with
  | .integer i => i.bits != 0
  | .real x => x != 0.0
  | .text s => s != ""
  | .invalid => false

def toText (v : Value) : String :=
  match v.datum with
  | .integer i => toString i.toInt
  | .real x => Decimal.Layout.general.float x
  | .text s => s
  | .invalid => "invalid"

/-- The text of a constant that holds the value, empty when there is none. -/
def encode (v : Value) : String :=
  match v.datum with
  | .integer i => if i.width = 1 then "SCAL:" ++ toString (i.bits &&& 1).toNat
    else "INT:" ++ v.toText
  | .real _ => "REAL:" ++ v.toText
  | .text s => "STRING:" ++ s
  | .invalid => ""

def toPlain (v : Value) : Plain :=
  match v.datum with
  | .integer i => if i.signed then .int i.toInt else .uint i.bits.toNat
  | .real x => .real x
  | .text s => .text s
  | .invalid => .null

/-- The value as a log line shows it: strings are quoted. -/
def logText (v : Value) : String :=
  match v.datum with
  | .text s => Text.quote s
  | _ => v.toText

end Value

end HdlExpr
