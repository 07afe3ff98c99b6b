import Mathlib.Algebra.Order.Ring.Nat
import Mathlib.Tactic.Positivity
import HdlExpr.Ir.Operation

/-!
# What values look like inside

Every value that the constructors and operators make holds an integer of at most 64 bits, none of
them above its width, or no integer at all; and an integer with a width has no sign.
-/

namespace HdlExpr

/-- The low bits of a word, as a number. -/
theorem Word.toNat_clip {width : Nat} (h : width ≤ 64) (w : Word) :
    (w.clip width).toNat = w.toNat % 2 ^ (if width = 0 then 64 else width) := by
  unfold Word.clip
  split
  · exact (Nat.mod_eq_of_lt w.isLt).symm
  · rw [BitVec.toNat_setWidth, BitVec.toNat_setWidth]
    have hp : 2 ^ width ≤ 2 ^ 64 := Nat.pow_le_pow_right (by simp) h
    exact Nat.mod_eq_of_lt ((Nat.mod_lt _ (by positivity)).trans_le hp)

theorem Word.getLsbD_clip (w : Word) {width : Nat} (hpos : width ≠ 0) (hle : width ≤ 64)
    (k : Nat) : (w.clip width).getLsbD k = (decide (k < width) && w.getLsbD k) := by
  rw [Word.clip, if_neg hpos, BitVec.getLsbD_setWidth, BitVec.getLsbD_setWidth]
  by_cases hk : k < width
  · have h64 : k < 64 := by omega
    simp [hk, h64]
  · simp [hk]

/-- An integer within its width, without a sign if it has a width. -/
structure Integer.WellFormed (i : Integer) : Prop where
  width_le : i.width ≤ 64
  bits_lt : i.bits.toNat < 2 ^ i.limit
  unsized : i.signed = true → i.width = 0

theorem Integer.WellFormed.limit_le {i : Integer} (h : i.WellFormed) : i.limit ≤ 64 := by
  unfold Integer.limit
  split
  · exact le_rfl
  · exact h.width_le

/-- No sign bit has to be copied upward. -/
theorem Integer.WellFormed.word_eq {i : Integer} (h : i.WellFormed) : i.word = i.bits := by
  unfold Integer.word
  split
  case isTrue hs =>
    rw [Bool.and_eq_true, bne_iff_ne] at hs
    exact absurd (h.unsized hs.1) hs.2
  case isFalse => rfl

theorem Integer.clipped_wellFormed {width : Nat} {signed : Bool} (hw : width ≤ 64)
    (hs : signed = true → width = 0) (bits : Word) :
    (Integer.clipped bits width signed).WellFormed := by
  refine ⟨hw, ?_, hs⟩
  rw [Integer.clipped, Word.toNat_clip hw]
  exact Nat.mod_lt _ (by positivity)

theorem Integer.wellFormed_of_unsized (bits : Word) (signed : Bool) :
    (⟨bits, 0, signed⟩ : Integer).WellFormed :=
  ⟨by simp, bits.isLt, fun _ => rfl⟩

namespace Value

theorem kind_eq_integer_iff {v : Value} : v.kind = .integer ↔ ∃ i, v.datum = .integer i := by
  cases hd : v.datum <;> simp [kind, hd]

theorem kind_eq_text_iff {v : Value} : v.kind = .text ↔ ∃ s, v.datum = .text s := by
  cases hd : v.datum <;> simp [kind, hd]

/-- A value whose integer, if it holds one, is well formed. -/
def WellFormed (v : Value) : Prop := ∀ i, v.datum = .integer i → i.WellFormed

private theorem wellFormed_ofInteger {i : Integer} (h : i.WellFormed) :
    (ofInteger i).WellFormed := by
  intro j hj
  obtain rfl : i = j := Datum.integer.inj hj
  exact h

theorem wellFormed_invalid : invalid.WellFormed := nofun

theorem wellFormed_real (x : Float) : (real x).WellFormed := nofun

theorem wellFormed_text (s : String) : (text s).WellFormed := nofun

theorem wellFormed_signed (w : Word) : (signed w).WellFormed :=
  wellFormed_ofInteger (Integer.wellFormed_of_unsized w true)

theorem wellFormed_unsigned (w : Word) : (unsigned w).WellFormed :=
  wellFormed_ofInteger (Integer.wellFormed_of_unsized w false)

private theorem wellFormed_ofBool (b : Bool) : (ofBool b).WellFormed := wellFormed_unsigned _

theorem wellFormed_sized (w : Word) (width : Int) : (sized w width).WellFormed := by
  unfold sized
  split
  · exact wellFormed_unsigned w
  · exact wellFormed_ofInteger (Integer.clipped_wellFormed (by omega) (by simp) w)

private theorem wellFormed_ofPlain? {p : Plain} {v : Value} (h : ofPlain? p = some v) :
    v.WellFormed := by
  cases p <;> simp only [ofPlain?, Option.some.injEq, reduceCtorEq] at h <;> subst h
  case int => exact wellFormed_signed _
  case uint => exact wellFormed_unsigned _
  case real => exact wellFormed_real _
  case bool => exact wellFormed_sized _ _
  case text => exact wellFormed_text _

/-! ## Operators -/

theorem WellFormed.clipped {v : Value} (h : v.WellFormed) {i : Integer} (hi : v.datum = .integer i)
    (bits : Word) : (Integer.clipped bits i.width i.signed).WellFormed :=
  Integer.clipped_wellFormed (h i hi).width_le (h i hi).unsized bits

private theorem wellFormed_arithmetic (onWords : Word → Word → Bool → Option Word)
    (onReals : Float → Float → Option Float) (a b : Value) :
    (arithmetic onWords onReals a b).WellFormed := by
  unfold arithmetic
  split
  · dsimp only
    split
    · exact wellFormed_ofInteger (Integer.wellFormed_of_unsized _ _)
    · exact wellFormed_invalid
  · split
    · exact wellFormed_real _
    · exact wellFormed_invalid
  · exact wellFormed_invalid

private theorem wellFormed_relation (holds : Ordering → Bool) (a b : Value) :
    (relation holds a b).WellFormed := by
  unfold relation
  split
  · exact wellFormed_ofBool _
  · exact wellFormed_invalid

private theorem wellFormed_connective (f : Bool → Bool → Bool) (a b : Value) :
    (connective f a b).WellFormed := by
  unfold connective
  split
  · exact wellFormed_ofBool _
  · exact wellFormed_invalid

private theorem datum_of_operands {a b : Value} {i j : Integer} (h : operands a b = .integers i j) :
    a.datum = .integer i ∧ b.datum = .integer j := by
  unfold operands at h
  split at h <;> simp_all

theorem WellFormed.bitwise {a b : Value} (ha : a.WellFormed) (hb : b.WellFormed)
    (f : Word → Word → Word) : (bitwise f a b).WellFormed := by
  unfold Value.bitwise
  split
  case h_1 i j h =>
    obtain ⟨hi, hj⟩ := datum_of_operands h
    have wi := ha i hi
    have wj := hb j hj
    refine wellFormed_ofInteger (Integer.clipped_wellFormed ?_ ?_ _)
    · split
      · exact max_le wi.width_le wj.width_le
      · simp
    · intro hs
      have hw : i.width = 0 := wi.unsized (by simp_all)
      simp [hw]
  case h_2 => exact wellFormed_invalid

theorem WellFormed.shift {a : Value} (ha : a.WellFormed) (f : Integer → Nat → Word) (b : Value) :
    (shift f a b).WellFormed := by
  unfold Value.shift
  split
  case h_1 i j h => exact wellFormed_ofInteger (ha.clipped (datum_of_operands h).1 _)
  case h_2 => exact wellFormed_invalid

theorem WellFormed.shiftLeft {a : Value} (ha : a.WellFormed) (b : Value) :
    (a.shiftLeft b).WellFormed := ha.shift _ b

theorem WellFormed.shiftRight {a : Value} (ha : a.WellFormed) (b : Value) :
    (a.shiftRight b).WellFormed := ha.shift _ b

theorem WellFormed.unary {op : Ir.Opcode} {f : Value → Value} (hf : op.unary? = some f)
    {v : Value} (h : v.WellFormed) : (f v).WellFormed := by
  cases op <;> simp only [Ir.Opcode.unary?, Option.some.injEq, reduceCtorEq] at hf <;> subst hf
  case plus =>
    unfold plus
    split
    · exact h
    · exact wellFormed_invalid
  case minus =>
    unfold minus
    split
    case h_1 i hi => exact wellFormed_ofInteger (h.clipped hi _)
    case h_2 => exact wellFormed_real _
    case h_3 => exact wellFormed_invalid
  case not =>
    unfold Value.not
    split
    · exact wellFormed_ofBool _
    · exact wellFormed_ofBool _
    · exact wellFormed_invalid
  case bitNeg =>
    unfold complement
    split
    case h_1 i hi => exact wellFormed_ofInteger (h.clipped hi _)
    case h_2 => exact wellFormed_invalid

theorem WellFormed.binary {op : Ir.Opcode} {f : Value → Value → Value} (hf : op.binary? = some f)
    {a b : Value} (ha : a.WellFormed) (hb : b.WellFormed) : (f a b).WellFormed := by
  cases op <;> simp only [Ir.Opcode.binary?, Option.some.injEq, reduceCtorEq] at hf <;> subst hf
  case add | sub | mult | div | mod | power => exact wellFormed_arithmetic _ _ a b
  case gt | ge | lt | le | eq | caseEq | neq | caseNeq => exact wellFormed_relation _ a b
  case logAnd | logOr => exact wellFormed_connective _ a b
  case bitAnd | bitOr | bitXor | bitXnor => exact ha.bitwise hb _
  case shiftLeft | arithShiftLeft => exact ha.shiftLeft b
  case shiftRight => exact ha.shiftRight b
  case arithShiftRight =>
    unfold arithShiftRight
    split
    · exact ha.shift _ b
    · exact ha.shiftRight b

theorem WellFormed.step {v : Value} (h : v.WellFormed) (up : Bool) : (v.step up).WellFormed := by
  unfold Value.step
  split
  case h_1 i hi => exact wellFormed_ofInteger (h.clipped hi _)
  case h_2 => exact wellFormed_real _
  case h_3 => exact wellFormed_invalid

theorem wellFormed_slice (v : Value) (hi lo : Int) : (v.slice hi lo).WellFormed := by
  unfold slice
  split
  · dsimp only
    split
    · exact wellFormed_invalid
    · exact wellFormed_sized _ _
  · exact wellFormed_invalid

/-- The values that constructors and operators make. -/
inductive Made : Value → Prop
  | invalid : Made invalid
  | signed (w : Word) : Made (signed w)
  | unsigned (w : Word) : Made (unsigned w)
  | sized (w : Word) (width : Int) : Made (sized w width)
  | scalar (w : Word) : Made (scalar w)
  | ofBool (b : Bool) : Made (ofBool b)
  | real (x : Float) : Made (real x)
  | text (s : String) : Made (text s)
  | ofPlain {p : Plain} {v : Value} (h : ofPlain? p = some v) : Made v
  | unary {op : Ir.Opcode} {f : Value → Value} (hf : op.unary? = some f) {v : Value}
      (h : Made v) : Made (f v)
  | binary {op : Ir.Opcode} {f : Value → Value → Value} (hf : op.binary? = some f) {a b : Value}
      (ha : Made a) (hb : Made b) : Made (f a b)
  | step {v : Value} (h : Made v) (up : Bool) : Made (v.step up)
  | slice {v : Value} (h : Made v) (hi lo : Int) : Made (v.slice hi lo)
  | asLvalue {v : Value} (h : Made v) : Made v.asLvalue
  | asRvalue {v : Value} (h : Made v) : Made v.asRvalue

theorem Made.wellFormed {v : Value} (h : Made v) : v.WellFormed := by
  induction h with
  | invalid => exact wellFormed_invalid
  | signed w => exact wellFormed_signed w
  | unsigned w => exact wellFormed_unsigned w
  | sized w width => exact wellFormed_sized w width
  | scalar w => exact wellFormed_sized _ 1
  | ofBool b => exact wellFormed_ofBool b
  | real x => exact wellFormed_real x
  | text s => exact wellFormed_text s
  | ofPlain h => exact wellFormed_ofPlain? h
  | unary hf _ ih => exact ih.unary hf
  | binary hf _ _ iha ihb => exact iha.binary hf ihb
  | step _ up ih => exact ih.step up
  | slice _ hi lo _ => exact wellFormed_slice _ hi lo
  | asLvalue _ ih => exact ih
  | asRvalue _ ih => exact ih

end Value

end HdlExpr
