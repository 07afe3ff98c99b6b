/-!
# Grammar tags

The categories of syntax nodes, under the names that the grammar gives them.
-/

namespace HdlExpr

/-- The grammar category of a syntax node. -/
inductive Tag where
  | invalid
  | constantPrimary
  | primaryLiteral
  | primary
  | constantMintypmaxExpression
  | mintypmaxExpression
  | paramExpression
  | incOrDecExpression
  | hierarchicalIdentifier
  | systemTask
  | expressionOrCondPattern
  | complexFuncCall
  | expression
  | constantExpression
  | eventExpression
  | incDecPlusPlus
  | incDecMinusMinus
  | unaryMinus
  | unaryPlus
  | unaryNot
  | unaryTilda
  | edgePosedge
  | edgeNegedge
  | binOpPlus
  | binOpMinus
  | binOpMult
  | binOpDiv
  | binOpPercent
  | binOpMultMult
  | binOpGreat
  | binOpGreatEqual
  | binOpLess
  | binOpLessEqual
  | binOpEquiv
  | binOpNot
  | binOpFourStateLogicEqual
  | binOpFourStateLogicNotEqual
  | binOpLogicAnd
  | binOpLogicOr
  | binOpBitwAnd
  | binOpBitwOr
  | binOpBitwXor
  | binOpBitwXnor
  | binOpShiftLeft
  | binOpShiftRight
  | binOpArithShiftLeft
  | binOpArithShiftRight
  | orOperator
  | commaOperator
  | intConst
  | realConst
  | stringLiteral
  | nullKeyword
  | number1Tickb0
  | number1TickB0
  | numberTickb0
  | numberTickB0
  | numberTick0
  | number1Tickb1
  | number1TickB1
  | numberTickb1
  | numberTickB1
  | numberTick1
  | stringConst
  | select
  | bitSelect
  | partSelectRange
  | constantRange
  | constantIndexedRange
  | incPartSelectOp
  | decPartSelectOp
  | systemTaskNames
  | variableLvalue
  | concatenation
  | multipleConcatenation
  deriving DecidableEq, Repr, Inhabited

namespace Tag

/-- The name in the grammar. -/
def name : Tag → String
  | .invalid => "Invalid"
  | .constantPrimary => "Constant_primary"
  | .primaryLiteral => "Primary_literal"
  | .primary => "Primary"
  | .constantMintypmaxExpression => "Constant_mintypmax_expression"
  | .mintypmaxExpression => "Mintypmax_expression"
  | .paramExpression => "Param_expression"
  | .incOrDecExpression => "Inc_or_dec_expression"
  | .hierarchicalIdentifier => "Hierarchical_identifier"
  | .systemTask => "System_task"
  | .expressionOrCondPattern => "Expression_or_cond_pattern"
  | .complexFuncCall => "Complex_func_call"
  | .expression => "Expression"
  | .constantExpression => "Constant_expression"
  | .eventExpression => "Event_expression"
  | .incDecPlusPlus => "IncDec_PlusPlus"
  | .incDecMinusMinus => "IncDec_MinusMinus"
  | .unaryMinus => "Unary_Minus"
  | .unaryPlus => "Unary_Plus"
  | .unaryNot => "Unary_Not"
  | .unaryTilda => "Unary_Tilda"
  | .edgePosedge => "Edge_Posedge"
  | .edgeNegedge => "Edge_Negedge"
  | .binOpPlus => "BinOp_Plus"
  | .binOpMinus => "BinOp_Minus"
  | .binOpMult => "BinOp_Mult"
  | .binOpDiv => "BinOp_Div"
  | .binOpPercent => "BinOp_Percent"
  | .binOpMultMult => "BinOp_MultMult"
  | .binOpGreat => "BinOp_Great"
  | .binOpGreatEqual => "BinOp_GreatEqual"
  | .binOpLess => "BinOp_Less"
  | .binOpLessEqual => "BinOp_LessEqual"
  | .binOpEquiv => "BinOp_Equiv"
  | .binOpNot => "BinOp_Not"
  | .binOpFourStateLogicEqual => "BinOp_FourStateLogicEqual"
  | .binOpFourStateLogicNotEqual => "BinOp_FourStateLogicNotEqual"
  | .binOpLogicAnd => "BinOp_LogicAnd"
  | .binOpLogicOr => "BinOp_LogicOr"
  | .binOpBitwAnd => "BinOp_BitwAnd"
  | .binOpBitwOr => "BinOp_BitwOr"
  | .binOpBitwXor => "BinOp_BitwXor"
  | .binOpBitwXnor => "BinOp_BitwXnor"
  | .binOpShiftLeft => "BinOp_ShiftLeft"
  | .binOpShiftRight => "BinOp_ShiftRight"
  | .binOpArithShiftLeft => "BinOp_ArithShiftLeft"
  | .binOpArithShiftRight => "BinOp_ArithShiftRight"
  | .orOperator => "Or_operator"
  | .commaOperator => "Comma_operator"
  | .intConst => "IntConst"
  | .realConst => "RealConst"
  | .stringLiteral => "StringLiteral"
  | .nullKeyword => "Null_keyword"
  | .number1Tickb0 => "Number_1Tickb0"
  | .number1TickB0 => "Number_1TickB0"
  | .numberTickb0 => "Number_Tickb0"
  | .numberTickB0 => "Number_TickB0"
  | .numberTick0 => "Number_Tick0"
  | .number1Tickb1 => "Number_1Tickb1"
  | .number1TickB1 => "Number_1TickB1"
  | .numberTickb1 => "Number_Tickb1"
  | .numberTickB1 => "Number_TickB1"
  | .numberTick1 => "Number_Tick1"
  | .stringConst => "StringConst"
  | .select => "Select"
  | .bitSelect => "Bit_select"
  | .partSelectRange => "Part_select_range"
  | .constantRange => "Constant_range"
  | .constantIndexedRange => "Constant_indexed_range"
  | .incPartSelectOp => "IncPartSelectOp"
  | .decPartSelectOp => "DecPartSelectOp"
  | .systemTaskNames => "System_task_names"
  | .variableLvalue => "Variable_lvalue"
  | .concatenation => "Concatenation"
  | .multipleConcatenation => "Multiple_concatenation"

/-- Every category of the grammar, in order. -/
def all : List Tag := [
  .constantPrimary, .primaryLiteral, .primary, .constantMintypmaxExpression,
  .mintypmaxExpression, .paramExpression, .incOrDecExpression, .hierarchicalIdentifier,
  .systemTask, .expressionOrCondPattern, .complexFuncCall, .expression, .constantExpression,
  .eventExpression, .incDecPlusPlus, .incDecMinusMinus, .unaryMinus, .unaryPlus, .unaryNot,
  .unaryTilda, .edgePosedge, .edgeNegedge, .binOpPlus, .binOpMinus, .binOpMult, .binOpDiv,
  .binOpPercent, .binOpMultMult, .binOpGreat, .binOpGreatEqual, .binOpLess, .binOpLessEqual,
  .binOpEquiv, .binOpNot, .binOpFourStateLogicEqual, .binOpFourStateLogicNotEqual,
  .binOpLogicAnd, .binOpLogicOr, .binOpBitwAnd, .binOpBitwOr, .binOpBitwXor, .binOpBitwXnor,
  .binOpShiftLeft, .binOpShiftRight, .binOpArithShiftLeft, .binOpArithShiftRight, .orOperator,
  .commaOperator, .intConst, .realConst, .stringLiteral, .nullKeyword, .number1Tickb0,
  .number1TickB0, .numberTickb0, .numberTickB0, .numberTick0, .number1Tickb1, .number1TickB1,
  .numberTickb1, .numberTickB1, .numberTick1, .stringConst, .select, .bitSelect,
  .partSelectRange, .constantRange, .constantIndexedRange, .incPartSelectOp, .decPartSelectOp,
  .systemTaskNames, .variableLvalue, .concatenation, .multipleConcatenation]

/-- The position in the grammar, zero for no category. -/
def number (t : Tag) : Nat := t.ctorIdx

def ofNumber (n : Nat) : Tag :=
  match n with
  | 0 => .invalid
  | k + 1 => (all[k]?).getD .invalid

def isValid (t : Tag) : Bool := t != .invalid

end Tag

end HdlExpr
