import HdlExpr.Ir.Opcode
import HdlExpr.Value.Operator

/-!
# Meaning of operation codes

The operators on values that the codes stand for.
-/

namespace HdlExpr.Ir.Opcode

/-- The operator of a code with two operands. -/
def binary? : Opcode → Option (Value → Value → Value)
  | .add => some Value.add
  | .sub => some Value.sub
  | .mult => some Value.mul
  | .div => some Value.div
  | .mod => some Value.mod
  | .power => some Value.power
  | .gt => some Value.greater
  | .ge => some Value.greaterEqual
  | .lt => some Value.less
  | .le => some Value.lessEqual
  | .eq | .caseEq => some Value.equal
  | .neq | .caseNeq => some Value.notEqual
  | .logAnd => some Value.logicalAnd
  | .logOr => some Value.logicalOr
  | .bitAnd => some Value.bitAnd
  | .bitOr => some Value.bitOr
  | .bitXor => some Value.bitXor
  | .bitXnor => some Value.bitXnor
  | .shiftLeft => some Value.shiftLeft
  | .shiftRight => some Value.shiftRight
  | .arithShiftLeft => some Value.arithShiftLeft
  | .arithShiftRight => some Value.arithShiftRight
  | _ => none

/-- The operator of a code with one operand and no effect. -/
def unary? : Opcode → Option (Value → Value)
  | .minus => some Value.minus
  | .plus => some Value.plus
  | .not => some Value.not
  | .bitNeg => some Value.complement
  | _ => none

/-- The step of a code that steps its operand: its function, and whether the result is the value
after the step. -/
def step? : Opcode → Option ((Value → Value) × Bool)
  | .preInc => some (Value.increment, true)
  | .preDec => some (Value.decrement, true)
  | .postInc => some (Value.increment, false)
  | .postDec => some (Value.decrement, false)
  | _ => none

end HdlExpr.Ir.Opcode
