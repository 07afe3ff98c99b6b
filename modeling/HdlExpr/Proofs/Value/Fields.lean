import HdlExpr.Proofs.Value.Flat

/-!
# The fields of values

The flat records that constructors and operators make are known exactly: in each of them everything
that belongs to other kinds is empty.  So is known which operators can give a value that is marked
as assignable.
-/

namespace HdlExpr

/-- Clearing the bits above a width does nothing where there are none. -/
theorem Word.clip_eq_self {width : Nat} (hw : width ≤ 64) {w : Word}
    (h : width ≠ 0 → w.toNat < 2 ^ width) : w.clip width = w := by
  apply BitVec.eq_of_toNat_eq
  rw [Word.toNat_clip hw]
  split
  case isTrue => exact Nat.mod_eq_of_lt w.isLt
  case isFalse h0 => exact Nat.mod_eq_of_lt (h h0)

namespace Value

/-! ## Records -/

/-- A width of at most 64 bits, no bits above it, a sign only without a width, and nothing that
belongs to another kind. -/
structure Fields.Sound (f : Fields) : Prop where
  width_le : f.width ≤ 64
  bits_lt : f.width ≠ 0 → f.bits.toNat < 2 ^ f.width
  signed : f.signed = true → f.kind = .integer ∧ f.width = 0
  integer : f.kind ≠ .integer → f.bits = 0 ∧ f.width = 0 ∧ f.signed = false
  text : f.kind ≠ .text → f.text = ""
  real : f.kind ≠ .real → f.real = 0

theorem WellFormed.fields_sound {v : Value} (h : v.WellFormed) : v.fields.Sound := by
  rcases v with ⟨_ | i | x | s, mark⟩
  case integer =>
    have hi := h i rfl
    refine ⟨hi.width_le, ?_, ?_, ?_, ?_, ?_⟩
    · intro (hw : i.width ≠ 0)
      have hbits := hi.bits_lt
      rw [Integer.limit, if_neg hw] at hbits
      exact hbits
    · intro hs
      exact ⟨rfl, hi.unsized hs⟩
    · intro hk
      exact absurd rfl hk
    · exact fun _ => rfl
    · exact fun _ => rfl
  all_goals constructor <;> simp [fields]

/-- A value with or without the mark of an assignable place. -/
def marked (mark : Bool) (v : Value) : Value := if mark then v.asLvalue else v.asRvalue

theorem Made.marked {v : Value} (h : Made v) (mark : Bool) : Made (v.marked mark) := by
  cases mark with
  | false => exact .asRvalue h
  | true => exact .asLvalue h

private theorem fields_marked (mark : Bool) (v : Value) :
    (v.marked mark).fields = { v.fields with lvalue := mark } := by
  rcases v with ⟨_ | i | x | s, _⟩ <;> cases mark <;> rfl

private theorem exists_made_integer {bits : Word} {width : Nat} {signed : Bool} (hw : width ≤ 64)
    (hbits : width ≠ 0 → bits.toNat < 2 ^ width) (hs : signed = true → width = 0) :
    Made (ofInteger ⟨bits, width, signed⟩) := by
  cases signed with
  | true =>
    obtain rfl := hs rfl
    exact .signed bits
  | false =>
    by_cases h0 : width = 0
    · subst h0
      exact .unsigned bits
    · have hsized : sized bits width = ofInteger ⟨bits, width, false⟩ := by
        have hcond : ¬((width : Int) ≤ 0 ∨ 64 < (width : Int)) := by omega
        rw [sized, if_neg hcond, Integer.clipped, Int.toNat_natCast, Word.clip_eq_self hw hbits]
      rw [← hsized]
      exact .sized bits width

private theorem exists_made_iff (f : Fields) : (∃ v, Made v ∧ v.fields = f) ↔ f.Sound := by
  constructor
  · rintro ⟨v, hv, rfl⟩
    exact hv.wellFormed.fields_sound
  · intro h
    -- The mark is put on last; everything else follows from the kind.
    suffices hplain : ∃ v, Made v ∧ v.fields = { f with lvalue := v.lvalue } by
      obtain ⟨v, hv, hf⟩ := hplain
      refine ⟨v.marked f.lvalue, hv.marked _, ?_⟩
      rw [fields_marked, hf]
    obtain ⟨kind, bits, width, signed, x, s, mark⟩ := f
    cases kind with
    | invalid =>
      obtain ⟨rfl, rfl, rfl⟩ := h.integer (by simp)
      obtain rfl := h.text (by simp)
      obtain rfl := h.real (by simp)
      exact ⟨invalid, .invalid, rfl⟩
    | integer =>
      obtain rfl := h.text (by simp)
      obtain rfl := h.real (by simp)
      exact ⟨_, exists_made_integer h.width_le h.bits_lt fun hs => (h.signed hs).2, rfl⟩
    | real =>
      obtain ⟨rfl, rfl, rfl⟩ := h.integer (by simp)
      obtain rfl := h.text (by simp)
      exact ⟨Value.real x, .real x, rfl⟩
    | text =>
      obtain ⟨rfl, rfl, rfl⟩ := h.integer (by simp)
      obtain rfl := h.real (by simp)
      exact ⟨Value.text s, .text s, rfl⟩

/-! ## Marks -/

theorem sized_lvalue (w : Word) (width : Int) : (sized w width).lvalue = false := by
  unfold sized
  split <;> rfl

theorem slice_lvalue (v : Value) (hi lo : Int) : (v.slice hi lo).lvalue = false := by
  unfold slice
  split
  · dsimp only
    split
    · rfl
    · exact sized_lvalue _ _
  · rfl

theorem unary_lvalue {op : Ir.Opcode} {f : Value → Value} (hf : op.unary? = some f) (v : Value) :
    (f v).lvalue = false := by
  cases op <;> simp only [Ir.Opcode.unary?, Option.some.injEq, reduceCtorEq] at hf <;> subst hf
  case plus =>
    unfold plus
    split <;> rfl
  case minus =>
    unfold minus
    split <;> rfl
  case not =>
    unfold Value.not
    split <;> rfl
  case bitNeg =>
    unfold complement
    split <;> rfl

private theorem arithmetic_lvalue (onWords : Word → Word → Bool → Option Word)
    (onReals : Float → Float → Option Float) (a b : Value) :
    (arithmetic onWords onReals a b).lvalue = false := by
  unfold arithmetic
  split
  · dsimp only
    split <;> rfl
  · split <;> rfl
  · rfl

theorem binary_lvalue {op : Ir.Opcode} {f : Value → Value → Value} (hf : op.binary? = some f)
    (a b : Value) : (f a b).lvalue = false := by
  have hrelation (holds : Ordering → Bool) : (relation holds a b).lvalue = false := by
    unfold relation
    split <;> rfl
  have hconnective (g : Bool → Bool → Bool) : (connective g a b).lvalue = false := by
    unfold connective
    split <;> rfl
  have hbitwise (g : Word → Word → Word) : (bitwise g a b).lvalue = false := by
    unfold bitwise
    split <;> rfl
  have hshift (g : Integer → Nat → Word) : (shift g a b).lvalue = false := by
    unfold shift
    split <;> rfl
  have hleft : (a.shiftLeft b).lvalue = false := hshift _
  have hright : (a.shiftRight b).lvalue = false := hshift _
  cases op <;> simp only [Ir.Opcode.binary?, Option.some.injEq, reduceCtorEq] at hf <;> subst hf
  case add | sub | mult | div | mod | power => exact arithmetic_lvalue _ _ a b
  case gt | ge | lt | le | eq | caseEq | neq | caseNeq => exact hrelation _
  case logAnd | logOr => exact hconnective _
  case bitAnd | bitOr | bitXor | bitXnor => exact hbitwise _
  case shiftLeft | arithShiftLeft => exact hleft
  case shiftRight => exact hright
  case arithShiftRight =>
    unfold arithShiftRight
    split
    · exact hshift _
    · exact hright

private theorem step_lvalue (up : Bool) (v : Value) :
    (v.step up).lvalue = (v.lvalue && (v.step up).isValid) := by
  unfold step
  split <;> simp [isValid, ofInteger, real, invalid]

/-- What values look like, whatever constructors and operators they come from.  (A copy is the value
itself, and so is what data give that are a value already.)  The records that are made are exactly
the sound ones, and so are the records of the values that are made.  An invalid one has nothing but
perhaps the mark of an assignable place.  No operator gives a marked value, except that steps keep
the mark of a number. -/
theorem made_representation :
    (∀ f : Fields, f.Made ↔ f.Sound) ∧
    (∀ f : Fields, (∃ v, Made v ∧ v.fields = f) ↔ f.Sound) ∧
    (∀ v, Made v → v.isValid = false → v = invalid ∨ v = invalid.asLvalue) ∧
    (∀ (op : Ir.Opcode) (f : Value → Value), op.unary? = some f → ∀ v, (f v).lvalue = false) ∧
    (∀ (op : Ir.Opcode) (f : Value → Value → Value), op.binary? = some f →
      ∀ a b, (f a b).lvalue = false) ∧
    (∀ (v : Value) (hi lo : Int), (v.slice hi lo).lvalue = false) ∧
    (∀ v : Value, v.asRvalue.lvalue = false) ∧
    ∀ (up : Bool) (v : Value), (v.step up).lvalue = (v.lvalue && (v.step up).isValid) := by
  refine ⟨fun f => fields_made_iff.trans (exists_made_iff f), exists_made_iff, ?_,
    fun _ _ hf => unary_lvalue hf, fun _ _ hf => binary_lvalue hf,
    slice_lvalue, fun _ => rfl, step_lvalue⟩
  rintro ⟨datum, mark⟩ - hv
  cases datum with
  | invalid =>
    cases mark with
    | false => exact .inl rfl
    | true => exact .inr rfl
  | integer i => cases hv
  | real x => cases hv
  | text s => cases hv

end Value

end HdlExpr
