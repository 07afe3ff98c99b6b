import HdlExpr.Definition.Operand
import HdlExpr.Value.RealPower

/-!
# Meaning of definition formulas

Integers are signed 64-bit numbers that wrap; an unsigned operand is read as signed wherever two
operands meet.  A quotient and a power are real.  Operands of the wrong type have no result, and
neither has a formula whose collections are too large.
-/

namespace HdlExpr.Definition

/-! ## Memory -/

/-- Computations that count the members of the collections they make. -/
abbrev Memory := StateT Nat Option

/-- How many members the collections of a formula must stay below. -/
def memoryLimit : Nat := 1000000

/-- Makes room for a collection. -/
def reserve (size : Nat) : Memory Unit := fun used =>
  if used + size < memoryLimit then some ((), used + size) else none

/-- A computation that makes no collection. -/
def free {α : Type} (result : Option α) : Memory α := fun used => result.map (·, used)

/-! ## Operators -/

/-- How many numbers there are from one to another, as far as a word can tell. -/
def intervalSize (first last : Int) : Nat := (wrap (last - first + 1)).toNat

/-- The numbers from one to another. -/
def interval (first last : Int) : Operand :=
  .ints ((List.range (intervalSize first last)).map fun (k : Nat) => first + k)

namespace UnaryOp

def apply : UnaryOp → Operand → Option Operand
  | .plus, v => some v
  | .minus, .int i => some (.int (wrap (-i)))
  | .minus, .signed i => some (.signed (wrap (-i)))
  | .minus, .unsigned n => some (.unsigned ((wordCount - n) % wordCount))
  | .minus, .real x => some (.real (-x))
  | .not, .bool b => some (.bool !b)
  | _, _ => none

end UnaryOp

namespace BinaryOp

/-- The result of an operator on two operands; logic is left to the formula, which may not need
its second operand. -/
def apply : BinaryOp → Operand → Operand → Option Operand
  | .equal, a, b => some (.bool (a.same b))
  | .unequal, a, b => some (.bool !(a.same b))
  | .less, a, b => Operand.order (fun i j => decide (i < j)) (· < ·) (fun s t => decide (s < t)) a b
  | .greater, a, b =>
    Operand.order (fun i j => decide (j < i)) (· > ·) (fun s t => decide (t < s)) a b
  | .lessEqual, a, b =>
    Operand.order (fun i j => decide (i ≤ j)) (· ≤ ·) (fun s t => decide (s ≤ t)) a b
  | .greaterEqual, a, b =>
    Operand.order (fun i j => decide (j ≤ i)) (· ≥ ·) (fun s t => decide (t ≤ s)) a b
  | .range, a, b => (Operand.wholes? a b).map fun (i, j) => interval i j
  | .add, .text s, .text t => some (.text (s ++ t))
  | .add, a, b => Operand.arithmetic (· + ·) (· + ·) a b
  | .subtract, a, b => Operand.arithmetic (· - ·) (· - ·) a b
  | .multiply, a, b => Operand.arithmetic (· * ·) (· * ·) a b
  | .divide, a, b => Operand.reals (· / ·) a b
  | .power, a, b => Operand.reals RealPower.power a b
  | .modulo, a, b =>
    (Operand.wholes? a b).bind fun (i, j) => if j = 0 then none else some (.int (i.tmod j))
  | .and, _, b | .or, _, b => some b

/-- The size of the collection that an operator makes. -/
def made (op : BinaryOp) (a b : Operand) : Nat :=
  match op, Operand.wholes? a b with
  | .range, some (i, j) => intervalSize i j
  | _, _ => 0

end BinaryOp

namespace Formula

/-! ## Constants -/

/-- The constant that a formula is, if it is a literal. -/
def constant? : Formula → Option Operand
  | .int i => some (.int i)
  | .real x => some (.real x)
  | .text s => some (.text s)
  | .bool b => some (.bool b)
  | _ => none

def ofConstant? : Operand → Option Formula
  | .int i => some (.int i)
  | .real x => some (.real x)
  | .text s => some (.text s)
  | .bool b => some (.bool b)
  | _ => none

/-- Whether an operator on two constants is worked out beforehand. -/
def isStatic (op : BinaryOp) (a b : Operand) : Bool :=
  match op, a, b with
  | .add, .text _, .text _ => true
  | .equal, .int _, .int _ | .equal, .text _, .text _ | .equal, .bool _, .bool _ => true
  | .modulo, .int _, .int _ => true
  | .add, a, b | .subtract, a, b | .multiply, a, b | .divide, a, b | .power, a, b =>
    a.isNumber && b.isNumber
  | _, _, _ => false

/-- A binary formula whose operands are reduced: logic drops a constant operand, and arithmetic on
two constants is worked out, which fails where it has no result. -/
def reduceBinary (op : BinaryOp) (a b : Formula) : Option Formula :=
  match op, a, b with
  | .and, .bool true, b => some b
  | .and, a, .bool true => some a
  | .and, .bool false, _ | .and, _, .bool false => some (.bool false)
  | .or, .bool false, b => some b
  | .or, a, .bool false => some a
  | .or, .bool true, _ | .or, _, .bool true => some (.bool true)
  | op, a, b =>
    match constant? a, constant? b with
    | some x, some y =>
      if isStatic op x y then (op.apply x y).bind ofConstant? else some (.binary op a b)
    | _, _ => some (.binary op a b)

def reduceUnary (op : UnaryOp) (f : Formula) : Formula :=
  (((constant? f).bind op.apply).bind ofConstant?).getD (.unary op f)

mutual

/-- The formula with its constant parts worked out beforehand. -/
def reduce : Formula → Option Formula
  | .unary op f => (reduce f).map (reduceUnary op)
  | .binary op a b =>
    match reduce a, reduce b with
    | some a, some b => reduceBinary op a b
    | _, _ => none
  | .chain first ops others =>
    match reduce first, reduceAll others with
    | some first, some others => some (.chain first ops others)
    | _, _ => none
  | .choice c a b =>
    match reduce c, reduce a, reduce b with
    | some c, some a, some b => some (.choice c a b)
    | _, _, _ => none
  | .fallback c b =>
    match reduce c, reduce b with
    | some c, some b => some (.fallback c b)
    | _, _ => none
  | .sequence fs => (reduceAll fs).map .sequence
  | .list items => (reduceAll items).map .list
  | .map keys values =>
    match reduceAll keys, reduceAll values with
    | some keys, some values => some (.map keys values)
    | _, _ => none
  | f => some f

/-- All formulas with their constant parts worked out beforehand. -/
def reduceAll : List Formula → Option (List Formula)
  | [] => some []
  | f :: fs =>
    match reduce f, reduceAll fs with
    | some f, some fs => some (f :: fs)
    | _, _ => none

end

/-- The constant that a list is, if it has members and all are literals. -/
def constantList? (items : List Formula) : Option (List Operand) :=
  if items.isEmpty then none else items.mapM constant?

mutual

/-- The real constants of a formula in their order; those of a constant list belong to the list. -/
def realConstants : Formula → List Float
  | .real x => [x]
  | .unary _ f => realConstants f
  | .binary _ a b => realConstants a ++ realConstants b
  | .chain first _ others => realConstants first ++ (realConstantsOf others).flatten
  | .choice c a b => realConstants c ++ realConstants a ++ realConstants b
  | .fallback c b => realConstants c ++ realConstants b
  | .sequence fs => (realConstantsOf fs).flatten
  | .list items => if (constantList? items).isSome then [] else (realConstantsOf items).flatten
  | .map keys values =>
    (List.zipWith (· ++ ·) (realConstantsOf keys) (realConstantsOf values)).flatten
  | .int _ | .text _ | .bool _ | .null | .name _ => []

def realConstantsOf : List Formula → List (List Float)
  | [] => []
  | f :: fs => realConstants f :: realConstantsOf fs

end

/-- The zero of a formula.  Equal constants are one constant, so that the first zero gives its sign
to the others. -/
def zero (f : Formula) : Float := (f.realConstants.find? (· == 0.0)).getD 0.0

/-! ## Values -/

/-- What a formula is evaluated with: the bindings, and its zero. -/
structure Context where
  bindings : List (String × Operand)
  zero : Float

/-- What a name stands for; the name of a function stands for nothing. -/
def Context.named (c : Context) (s : String) : Operand :=
  if s = everything then .map c.bindings else (c.bindings.lookup s).getD .null

def truth? : Operand → Option Bool
  | .bool b => some b
  | _ => none

def addEntry (entries : List (String × Operand)) (entry : Operand × Operand) :
    Option (List (String × Operand)) :=
  match entry.1 with
  | .text key => some (if entries.any (·.1 == key) then entries else entries ++ [(key, entry.2)])
  | _ => none

mutual

def value (c : Context) : Formula → Memory Operand
  | .int i => pure (.int i)
  | .real x => pure (.real (if x == 0.0 then c.zero else x))
  | .text s => pure (.text s)
  | .bool b => pure (.bool b)
  | .null => pure .null
  | .name s => pure (c.named s)
  | .list items =>
    match constantList? items with
    | some members => pure (.list members)
    | none => do
      let members ← values c items
      reserve members.length
      return .list members
  | .map keys items => do
    let keys ← values c keys
    let members ← values c items
    reserve members.length
    return .map (← free ((keys.zip members).foldlM addEntry []))
  | .unary op f => do free (op.apply (← value c f))
  | .binary .and a b => do
    if ← free (truth? (← value c a)) then value c b else return .bool false
  | .binary .or a b => do
    if ← free (truth? (← value c a)) then return .bool true else value c b
  | .binary op a b => do
    let a ← value c a
    let b ← value c b
    reserve (op.made a b)
    free (op.apply a b)
  | .chain first ops others => do chainValue c (← value c first) ops others
  | .choice condition a b => do
    if ← free (truth? (← value c condition)) then value c a else value c b
  | .fallback condition b => do
    let a ← value c condition
    if ← free (truth? a) then return a else value c b
  | .sequence fs => do return (← values c fs).getLastD .null

def chainValue (c : Context) (left : Operand) : List BinaryOp → List Formula → Memory Operand
  | op :: ops, f :: fs => do
    let right ← value c f
    let result ← free (op.apply left right)
    match ops with
    | [] => return result
    | ops => if ← free (truth? result) then chainValue c right ops fs else return result
  | _, _ => return .bool true

def values (c : Context) : List Formula → Memory (List Operand)
  | [] => return []
  | f :: fs => do
    let v ← value c f
    return v :: (← values c fs)

end

def result? (f : Formula) (bindings : List (String × Operand)) : Option Operand :=
  ((f.value { bindings, zero := f.zero }).run 0).map (·.1)

end Formula

end HdlExpr.Definition
