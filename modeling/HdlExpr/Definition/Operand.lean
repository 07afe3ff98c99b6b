import HdlExpr.Plain
import HdlExpr.Definition.Formula
import HdlExpr.Value.Basic

/-!
# Operands of definition formulas

What a formula computes with.  Whole numbers that a formula writes or computes are kept apart from
those that are bound: arithmetic and comparison treat them alike, and only the equality of maps
tells them from each other.
-/

namespace HdlExpr.Definition

/-- The signed 64-bit number congruent to `i`. -/
def wrap (i : Int) : Int := i.bmod wordCount

inductive Operand where
  | null
  | bool (b : Bool)
  | int (i : Int)
  | signed (i : Int)
  | unsigned (n : Nat)
  | real (x : Float)
  | text (s : String)
  | list (items : List Operand)
  | ints (items : List Int)
  | map (entries : List (String × Operand))
  deriving Inhabited

namespace Operand

/-! ## Values -/

def ofValue (v : Value) : Operand :=
  match v.toPlain with
  | .int i => .signed i
  | .uint n => .unsigned n
  | .real x => .real x
  | .text s => .text s
  | .bool b => .bool b
  | .null | .list _ | .map _ => .null

/-- The data that a binding can hold. -/
def plain? : Operand → Option Plain
  | .bool b => some (.bool b)
  | .int i | .signed i => some (.int i)
  | .unsigned n => some (.uint n)
  | .real x => some (.real x)
  | .text s => some (.text s)
  | .null | .list _ | .ints _ | .map _ => none

/-- The value that a result is bound to; collections and null have none. -/
def value? (v : Operand) : Option Value := v.plain?.bind Value.ofPlain?

/-- The name under which a message mentions the type of a result. -/
def typeName : Operand → String
  | .null => "<nil>"
  | .bool _ => "bool"
  | .int _ => "int"
  | .signed _ => "int64"
  | .unsigned _ => "uint64"
  | .real _ => "float64"
  | .text _ => "string"
  | .list _ => "[]interface \x7b\x7d"
  | .ints _ => "[]int"
  | .map _ => "map[string]interface \x7b\x7d"

/-! ## Numbers -/

/-- The whole number that an operand is; an unsigned one is read as signed. -/
def whole? : Operand → Option Int
  | .int i | .signed i => some i
  | .unsigned n => some (wrap n)
  | _ => none

def real? : Operand → Option Float
  | .int i | .signed i => some (Float.ofInt i)
  | .unsigned n => some (Float.ofNat n)
  | .real x => some x
  | _ => none

def isNumber (v : Operand) : Bool := v.real?.isSome

/-- Combines two operands as whole numbers if both are, and as reals otherwise. -/
def combine {α : Type} (whole : Int → Int → α) (real : Float → Float → α) (a b : Operand) :
    Option α :=
  match a.whole?, b.whole? with
  | some i, some j => some (whole i j)
  | _, _ =>
    match a.real?, b.real? with
    | some x, some y => some (real x y)
    | _, _ => none

def arithmetic (whole : Int → Int → Int) (real : Float → Float → Float) : Operand → Operand →
    Option Operand :=
  combine (fun i j => .int (wrap (whole i j))) (fun x y => .real (real x y))

def reals (f : Float → Float → Float) (a b : Operand) : Option Operand :=
  match a.real?, b.real? with
  | some x, some y => some (.real (f x y))
  | _, _ => none

def wholes? (a b : Operand) : Option (Int × Int) :=
  match a.whole?, b.whole? with
  | some i, some j => some (i, j)
  | _, _ => none

/-! ## Equality -/

mutual

/-- Whether two operands have the same type and the same content, down to their innermost parts. -/
def identical : Operand → Operand → Bool
  | .null, .null => true
  | .bool a, .bool b => a == b
  | .int a, .int b => a == b
  | .signed a, .signed b => a == b
  | .unsigned a, .unsigned b => a == b
  | .real a, .real b => a == b
  | .text a, .text b => a == b
  | .list a, .list b => a.length == b.length && identicalItems a b
  | .ints a, .ints b => a == b
  | .map a, .map b => a.length == b.length && identicalEntries a b
  | _, _ => false

def identicalItems : List Operand → List Operand → Bool
  | a :: as, b :: bs => identical a b && identicalItems as bs
  | _, _ => true

def identicalEntry : String × Operand → List (String × Operand) → Bool
  | (key, a), bs =>
    match bs.lookup key with
    | some b => identical a b
    | none => false

def identicalEntries : List (String × Operand) → List (String × Operand) → Bool
  | [], _ => true
  | a :: as, bs => identicalEntry a bs && identicalEntries as bs

end

def sameNumber (a b : Operand) : Bool := (combine (· == ·) (· == ·) a b).getD false

/-- Whether a list holds just these numbers. -/
def sameInts (items : List Operand) (numbers : List Int) : Bool :=
  items.length == numbers.length && (items.zip numbers).all fun (a, i) => sameNumber a (.int i)

mutual

/-- Whether two operands are equal.  Numbers are compared by what they are worth, also in lists,
and maps are equal only if they are identical. -/
def same : Operand → Operand → Bool
  | .null, .null => true
  | .bool a, .bool b => a == b
  | .text a, .text b => a == b
  | .list a, .list b => a.length == b.length && sameItems a b
  | .list a, .ints b => sameInts a b
  | .ints a, .list b => sameInts b a
  | .ints a, .ints b => a == b
  | .map a, .map b => identical (.map a) (.map b)
  | a, b => sameNumber a b

def sameItems : List Operand → List Operand → Bool
  | a :: as, b :: bs => same a b && sameItems as bs
  | _, _ => true

end

def order (whole : Int → Int → Bool) (real : Float → Float → Bool) (text : String → String → Bool) :
    Operand → Operand → Option Operand
  | .text a, .text b => some (.bool (text a b))
  | a, b => (combine whole real a b).map .bool

end Operand

end HdlExpr.Definition
