import HdlExpr.Fold

/-!
# Operators on invalid operands

No operator makes a value of an invalid operand: each gives the invalid value as soon as one of
its operands is invalid, and so do steps.
-/

namespace HdlExpr

namespace Value

private theorem datum_of_not_isValid {v : Value} (h : v.isValid = false) : v.datum = .invalid := by
  cases hd : v.datum with
  | invalid => rfl
  | integer i => simp [isValid, hd] at h
  | real x => simp [isValid, hd] at h
  | text s => simp [isValid, hd] at h

@[simp] theorem isValid_invalid : invalid.isValid = false := rfl

@[simp] theorem isValid_asRvalue (v : Value) : v.asRvalue.isValid = v.isValid := rfl

private theorem operands_of_invalid {a b : Value} (h : a.isValid = false ∨ b.isValid = false) :
    operands a b = .mismatched := by
  rcases h with h | h
  · have ha := datum_of_not_isValid h
    simp [operands, ha]
  · have hb := datum_of_not_isValid h
    cases ha : a.datum <;> simp [operands, ha, hb]

private theorem arithmetic_of_mismatched (onWords : Word → Word → Bool → Option Word)
    (onReals : Float → Float → Option Float) {a b : Value} (h : operands a b = .mismatched) :
    arithmetic onWords onReals a b = invalid := by
  simp [arithmetic, h]

private theorem relation_of_mismatched (holds : Ordering → Bool) {a b : Value}
    (h : operands a b = .mismatched) : relation holds a b = invalid := by
  simp [relation, compare?, h]

private theorem bitwise_of_mismatched (f : Word → Word → Word) {a b : Value}
    (h : operands a b = .mismatched) : bitwise f a b = invalid := by
  simp [bitwise, h]

private theorem shift_of_mismatched (f : Integer → Nat → Word) {a b : Value}
    (h : operands a b = .mismatched) : shift f a b = invalid := by
  simp [shift, h]

private theorem shiftLeft_of_mismatched {a b : Value} (h : operands a b = .mismatched) :
    a.shiftLeft b = invalid := shift_of_mismatched _ h

private theorem shiftRight_of_mismatched {a b : Value} (h : operands a b = .mismatched) :
    a.shiftRight b = invalid := shift_of_mismatched _ h

private theorem connective_of_invalid (f : Bool → Bool → Bool) {a b : Value}
    (h : a.isValid = false ∨ b.isValid = false) : connective f a b = invalid := by
  rcases h with h | h <;> simp [connective, h]

private theorem step_of_invalid (up : Bool) {v : Value} (h : v.isValid = false) :
    v.step up = invalid := by
  simp [step, datum_of_not_isValid h]

private theorem plus_of_invalid {v : Value} (h : v.isValid = false) : v.plus = invalid := by
  simp [plus, h]

end Value

namespace Ir.Opcode

open Value in
/-- Every operator with two operands needs both. -/
theorem binary?_of_invalid {op : Opcode} {f : Value → Value → Value} (hf : op.binary? = some f)
    {a b : Value} (h : a.isValid = false ∨ b.isValid = false) : f a b = Value.invalid := by
  have hm := operands_of_invalid h
  cases op <;> simp only [binary?, Option.some.injEq, reduceCtorEq] at hf <;> subst hf
  case add | sub | mult | div | mod | power => exact arithmetic_of_mismatched _ _ hm
  case gt | ge | lt | le | eq | caseEq | neq | caseNeq => exact relation_of_mismatched _ hm
  case logAnd | logOr => exact connective_of_invalid _ h
  case bitAnd | bitOr | bitXor | bitXnor => exact bitwise_of_mismatched _ hm
  case shiftLeft | arithShiftLeft => exact Value.shiftLeft_of_mismatched hm
  case shiftRight => exact Value.shiftRight_of_mismatched hm
  case arithShiftRight =>
    unfold Value.arithShiftRight
    split
    · exact shift_of_mismatched _ hm
    · exact Value.shiftRight_of_mismatched hm

open Value in
theorem unary?_of_invalid {op : Opcode} {f : Value → Value} (hf : op.unary? = some f) {v : Value}
    (h : v.isValid = false) : f v = Value.invalid := by
  have hd := datum_of_not_isValid h
  cases op <;> simp only [unary?, Option.some.injEq, reduceCtorEq] at hf <;> subst hf
  case plus => exact plus_of_invalid h
  case minus => simp [Value.minus, hd]
  case not => simp [Value.not, hd]
  case bitNeg => simp [Value.complement, hd]

/-- A code that steps moves its operand up or down by one. -/
theorem step?_eq_some {op : Opcode} {f : Value → Value} {after : Bool}
    (h : op.step? = some (f, after)) : ∃ up, f = Value.step up := by
  cases op <;> simp only [step?, Option.some.injEq, reduceCtorEq, Prod.mk.injEq] at h
  case preInc | postInc => exact ⟨true, h.1 ▸ rfl⟩
  case preDec | postDec => exact ⟨false, h.1 ▸ rfl⟩

theorem step?_of_invalid {op : Opcode} {f : Value → Value} {after : Bool}
    (hf : op.step? = some (f, after)) {v : Value} (h : v.isValid = false) :
    f v = Value.invalid := by
  obtain ⟨up, rfl⟩ := step?_eq_some hf
  exact Value.step_of_invalid up h

end Ir.Opcode

namespace Fold

theorem boundOf_of_invalid {v : Value} (h : v.isValid = false) : boundOf v = none := by
  simp [boundOf, Value.datum_of_not_isValid h]

end Fold

end HdlExpr
