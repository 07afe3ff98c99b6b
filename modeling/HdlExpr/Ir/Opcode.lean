/-!
# Operation codes

The operators of the intermediate representation and the directions of its indexed selects, with
their numbers and names.
-/

namespace HdlExpr.Ir

/-- The operator of an operation.  Numbers without a name are kept as they are. -/
inductive Opcode where
  | noOperation
  | minus
  | plus
  | not
  | bitNeg
  | sub
  | div
  | mod
  | eq
  | neq
  | caseEq
  | caseNeq
  | gt
  | ge
  | lt
  | le
  | shiftLeft
  | shiftRight
  | add
  | mult
  | logAnd
  | logOr
  | bitAnd
  | bitOr
  | bitXor
  | bitXnor
  | concat
  | multiConcat
  | eventOr
  | null
  | list
  | posedge
  | negedge
  | arithShiftLeft
  | arithShiftRight
  | power
  | postInc
  | preInc
  | postDec
  | preDec
  | other (n : Int)
  deriving DecidableEq, Repr, Inhabited

namespace Opcode

/-- The named operators with their numbers and names. -/
def table : List (Opcode × Int × String) := [
  (.noOperation, 0, "None"), (.minus, 1, "Minus"), (.plus, 2, "Plus"), (.not, 3, "Not"),
  (.bitNeg, 4, "BitNeg"), (.sub, 11, "Sub"), (.div, 12, "Div"), (.mod, 13, "Mod"),
  (.eq, 14, "Eq"), (.neq, 15, "Neq"), (.caseEq, 16, "CaseEq"), (.caseNeq, 17, "CaseNeq"),
  (.gt, 18, "Gt"), (.ge, 19, "Ge"), (.lt, 20, "Lt"), (.le, 21, "Le"),
  (.shiftLeft, 22, "LShift"), (.shiftRight, 23, "RShift"), (.add, 24, "Add"),
  (.mult, 25, "Mult"), (.logAnd, 26, "LogAnd"), (.logOr, 27, "LogOr"), (.bitAnd, 28, "BitAnd"),
  (.bitOr, 29, "BitOr"), (.bitXor, 30, "BitXor"), (.bitXnor, 31, "BitXnor"),
  (.concat, 33, "Concat"), (.multiConcat, 34, "MultiConcat"), (.eventOr, 35, "EventOr"),
  (.null, 36, "Null"), (.list, 37, "List"), (.posedge, 39, "Posedge"),
  (.negedge, 40, "Negedge"), (.arithShiftLeft, 41, "ArithLShift"),
  (.arithShiftRight, 42, "ArithRShift"), (.power, 43, "Power"), (.postInc, 62, "PostInc"),
  (.preInc, 63, "PreInc"), (.postDec, 64, "PostDec"), (.preDec, 65, "PreDec")]

def number (op : Opcode) : Int :=
  match op with
  | .other n => n
  | named => ((table.find? (·.1 == named)).map (·.2.1)).getD 0

def ofNumber (n : Int) : Opcode :=
  ((table.find? (·.2.1 == n)).map (·.1)).getD (.other n)

def name (op : Opcode) : String :=
  match op with
  | .other n => "Opcode(" ++ toString n ++ ")"
  | named => ((table.find? (·.1 == named)).map (·.2.2)).getD ""

end Opcode

/-- Whether an indexed select counts its bits up or down from its base. -/
inductive Direction where
  | up
  | down
  | other (n : Int)
  deriving DecidableEq, Repr, Inhabited

namespace Direction

def number : Direction → Int
  | .up => 1
  | .down => 2
  | .other n => n

def ofNumber : Int → Direction
  | 1 => .up
  | 2 => .down
  | n => .other n

def name : Direction → String
  | .up => "+:"
  | .down => "-:"
  | .other _ => "?:"

end Direction

end HdlExpr.Ir
