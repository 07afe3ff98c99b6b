import HdlExpr.Definition.Operand

/-!
# Types of definition formulas

What is known of a formula's result before it is evaluated.  The two branches of a choice may have
different types; nothing is then known of the result, and its type is checked when it is used.
-/

namespace HdlExpr.Definition

/-- A type.  Literals and results of arithmetic are `int`; bindings are `signed` or `unsigned`. The
names of functions have a type, though nothing can be done with them. -/
inductive Ty where
  | int
  | signed
  | unsigned
  | real
  | bool
  | text
  | null
  | list
  | ints
  | map
  | function
  | unknown
  deriving DecidableEq

namespace Ty

def isInteger : Ty → Bool
  | .int | .signed | .unsigned => true
  | _ => false

def isNumber (t : Ty) : Bool := t.isInteger || t == .real

/-- The type of arithmetic on two numbers. -/
def joined (a b : Ty) : Ty := if a == .real || b == .real then .real else .int

/-- Whether two operands may both have a property, going by what is known of them. -/
def mayBoth (property : Ty → Bool) (a b : Ty) : Bool :=
  (a == .unknown || property a) && (b == .unknown || property b)

def isList (t : Ty) : Bool := t == .list || t == .ints

/-- Whether equality of two operands can be asked. -/
def comparable (a b : Ty) : Bool :=
  a == b || (a.isNumber && b.isNumber) || (a.isList && b.isList) ||
    [a, b].any fun t => t == .null || t == .unknown

/-- The type of an operation on operands that must be numbers. -/
def ofNumbers (a b : Ty) : Option Ty :=
  if a.isNumber && b.isNumber then some (joined a b)
  else if mayBoth isNumber a b then some .unknown
  else none

def ofUnary (op : UnaryOp) (t : Ty) : Option Ty :=
  match op with
  | .plus | .minus => if t.isNumber || t == .unknown then some t else none
  | .not => if t == .bool || t == .unknown then some .bool else none

def ofBinary (op : BinaryOp) (a b : Ty) : Option Ty :=
  let given (ok : Bool) (t : Ty) : Option Ty := if ok then some t else none
  match op with
  | .or | .and => given (mayBoth (· == .bool) a b) .bool
  | .equal | .unequal => given (comparable a b) .bool
  | .less | .greater | .greaterEqual | .lessEqual =>
    given (mayBoth isNumber a b || mayBoth (· == .text) a b) .bool
  | .range => given (mayBoth isInteger a b) .ints
  | .add =>
    match ofNumbers a b with
    | some t => some t
    | none =>
      if a == .text && b == .text then some .text else given (mayBoth (· == .text) a b) .unknown
  | .subtract | .multiply => ofNumbers a b
  | .divide | .power => given (mayBoth isNumber a b) .real
  | .modulo => given (mayBoth isInteger a b) .int

/-- The type of a choice between two branches. -/
def ofChoice (yes no : Ty) : Ty :=
  if yes == .null then no
  else if no == .null || yes == no then yes
  else .unknown

def ofOperand : Operand → Ty
  | .null => .null
  | .bool _ => .bool
  | .int _ => .int
  | .signed _ => .signed
  | .unsigned _ => .unsigned
  | .real _ => .real
  | .text _ => .text
  | .list _ => .list
  | .ints _ => .ints
  | .map _ => .map

end Ty

namespace Formula

/-- The names of functions, which are known whatever is bound. -/
def functions : List String :=
  ["all", "none", "any", "one", "filter", "map", "count", "sum", "find", "findIndex", "findLast",
   "findLastIndex", "groupBy", "sortBy", "reduce", "len", "type", "abs", "ceil", "floor", "round",
   "int", "float", "string", "trim", "trimPrefix", "trimSuffix", "upper", "lower", "split",
   "splitAfter", "replace", "repeat", "join", "indexOf", "lastIndexOf", "hasPrefix", "hasSuffix",
   "max", "min", "mean", "median", "toJSON", "fromJSON", "toBase64", "fromBase64", "now",
   "duration", "date", "timezone", "first", "last", "get", "take", "keys", "values", "toPairs",
   "fromPairs", "reverse", "uniq", "concat", "flatten", "sort", "bitand", "bitor", "bitxor",
   "bitnand", "bitnot", "bitshl", "bitshr", "bitushr"]

/-- The type of a name: that of a binding, or of a function.  All bindings together have a name
too. -/
def nameType (names : String → Option Ty) (s : String) : Option Ty :=
  if s = everything then some .unknown
  else (names s).or (if functions.contains s then some .function else none)

mutual

/-- The type of a formula, if names and operands fit. -/
def type (names : String → Option Ty) : Formula → Option Ty
  | .int _ => some .int
  | .real _ => some .real
  | .text _ => some .text
  | .bool _ => some .bool
  | .null => some .null
  | .name s => nameType names s
  | .list items => if allTyped names items then some .list else none
  | .map keys values =>
    if allTyped names keys && allTyped names values then some .map else none
  | .unary op f => (type names f).bind (Ty.ofUnary op)
  | .binary op a b =>
    match type names a, type names b with
    | some a, some b => Ty.ofBinary op a b
    | _, _ => none
  | .chain first ops others =>
    match type names first with
    | some t => if chainTyped names t ops others then some .bool else none
    | none => none
  | .choice c a b =>
    match type names c, type names a, type names b with
    | some c, some a, some b => if c == .bool || c == .unknown then some (Ty.ofChoice a b) else none
    | _, _, _ => none
  | .fallback c b =>
    match type names c, type names b with
    | some c, some b => if c == .bool || c == .unknown then some (Ty.ofChoice c b) else none
    | _, _ => none
  | .sequence fs => lastType names fs

/-- The type of the last of some formulas that all have one. -/
def lastType (names : String → Option Ty) : List Formula → Option Ty
  | [] => none
  | [f] => type names f
  | f :: fs =>
    match type names f with
    | some _ => lastType names fs
    | none => none

def chainTyped (names : String → Option Ty) (left : Ty) : List BinaryOp → List Formula → Bool
  | op :: ops, f :: fs =>
    match type names f with
    | some right => (Ty.ofBinary op left right).isSome && chainTyped names right ops fs
    | none => false
  | _, _ => true

def allTyped (names : String → Option Ty) : List Formula → Bool
  | [] => true
  | f :: fs => (type names f).isSome && allTyped names fs

end

end Formula

end HdlExpr.Definition
