import HdlExpr.Ir.Opcode
import HdlExpr.Literal
import HdlExpr.Tag.Basic

/-!
# Roles of tags

Which tags are operators and which operation each stands for, which are literals and how their
text is carried, and which are mere wrappers.
-/

namespace HdlExpr.Tag

open Ir (Opcode Direction)

/-- The operation of an infix operator. -/
def binaryOp? : Tag → Option Opcode
  | .binOpPlus => some .add
  | .binOpMinus => some .sub
  | .binOpMult => some .mult
  | .binOpDiv => some .div
  | .binOpPercent => some .mod
  | .binOpMultMult => some .power
  | .binOpGreat => some .gt
  | .binOpGreatEqual => some .ge
  | .binOpLess => some .lt
  | .binOpLessEqual => some .le
  | .binOpEquiv => some .eq
  | .binOpNot => some .neq
  | .binOpFourStateLogicEqual => some .caseEq
  | .binOpFourStateLogicNotEqual => some .caseNeq
  | .binOpLogicAnd => some .logAnd
  | .binOpLogicOr => some .logOr
  | .binOpBitwAnd => some .bitAnd
  | .binOpBitwOr => some .bitOr
  | .binOpBitwXor => some .bitXor
  | .binOpBitwXnor => some .bitXnor
  | .binOpShiftLeft => some .shiftLeft
  | .binOpShiftRight => some .shiftRight
  | .binOpArithShiftLeft => some .arithShiftLeft
  | .binOpArithShiftRight => some .arithShiftRight
  | _ => none

/-- The operation of an operator in front of its operand; steps are taken before the value. -/
def unaryOp? : Tag → Option Opcode
  | .incDecPlusPlus => some .preInc
  | .incDecMinusMinus => some .preDec
  | .unaryMinus => some .minus
  | .unaryPlus => some .plus
  | .unaryNot => some .not
  | .unaryTilda => some .bitNeg
  | .edgePosedge => some .posedge
  | .edgeNegedge => some .negedge
  | _ => none

/-- The operation of a step behind its operand. -/
def postOp? : Tag → Option Opcode
  | .incDecPlusPlus => some .postInc
  | .incDecMinusMinus => some .postDec
  | _ => none

def combinator? : Tag → Option Opcode
  | .orOperator => some .eventOr
  | .commaOperator => some .list
  | _ => none

def direction? : Tag → Option Direction
  | .incPartSelectOp => some .up
  | .decPartSelectOp => some .down
  | _ => none

def scalarBit? : Tag → Option Bool
  | .number1Tickb0 | .number1TickB0 | .numberTickb0 | .numberTickB0 | .numberTick0 => some false
  | .number1Tickb1 | .number1TickB1 | .numberTickb1 | .numberTickB1 | .numberTick1 => some true
  | _ => none

/-- Wrappers, which mean what their first child means. -/
def isWrapper : Tag → Bool
  | .constantPrimary | .primaryLiteral | .primary | .constantMintypmaxExpression
  | .mintypmaxExpression | .paramExpression | .incOrDecExpression | .hierarchicalIdentifier
  | .systemTask | .expressionOrCondPattern | .complexFuncCall => true
  | _ => false

/-- Operands of a chain, which are wrappers unless an operator follows them. -/
def isOperandChain : Tag → Bool
  | .expression | .constantExpression => true
  | _ => false

def isLiteral (t : Tag) : Bool :=
  match t with
  | .intConst | .realConst | .stringLiteral | .nullKeyword => true
  | _ => t.scalarBit?.isSome

/-- The text of the constant that carries a literal.  Strings lose their quotes and null is zero;
everything else is kept as it was written. -/
def literalText? (t : Tag) (text : String) : Option String :=
  match t with
  | .intConst => some ((Literal.kind text).name ++ ":" ++ text)
  | .realConst => some ("REAL:" ++ text)
  | .stringLiteral => some ("STRING:" ++ Literal.unquote text)
  | .nullKeyword => some "INT:0"
  | _ => if t.scalarBit?.isSome then some ("SCAL:" ++ text) else none

def literalValue? (t : Tag) (text : String) : Option Value :=
  match t with
  | .intConst => some (Literal.value text)
  | .realConst => some (Value.real (Numeral.real text))
  | .stringLiteral => some (Value.text (Literal.unquote text))
  | .nullKeyword => some (Value.unsigned 0)
  | _ => t.scalarBit?.map fun bit => Value.scalar (if bit then 1 else 0)

end HdlExpr.Tag
