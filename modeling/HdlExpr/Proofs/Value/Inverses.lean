import HdlExpr.Proofs.Value.Bitwise

/-!
# Inverses

Negation, complement and steps change an integer within its width.  What lies above the width is
cleared each time and never matters to the bits below, so these operators undo each other as they do
on words.
-/

namespace HdlExpr

namespace Word

variable {width : Nat} (hle : width ≤ 64)

include hle

private theorem keepsLow_neg : KeepsLow width (- ·) := by
  intro x y h
  rw [BitVec.setWidth_neg_of_le hle, BitVec.setWidth_neg_of_le hle, h]

private theorem keepsLow_add (z : Word) : KeepsLow width (· + z) := by
  intro x y h
  rw [BitVec.setWidth_add _ _ hle, BitVec.setWidth_add _ _ hle, h]

private theorem keepsLow_sub (z : Word) : KeepsLow width (· - z) := by
  intro x y h
  simp only [BitVec.sub_eq_add_neg]
  exact keepsLow_add hle (-z) x y h

end Word

namespace Integer

variable {i : Integer} (h : i.WellFormed)

include h

theorem WellFormed.within (g : Word → Word) : (i.within g).WellFormed :=
  clipped_wellFormed h.width_le h.unsized _

theorem WellFormed.within_id : i.within id = i := by
  have hbits : i.bits.clip i.width = i.bits := by
    apply Word.clip_eq_self h.width_le
    intro h0
    simpa [limit, h0] using h.bits_lt
  rw [Integer.within, clipped, id, hbits]

theorem WellFormed.within_within (g : Word → Word) {g' : Word → Word}
    (hg : Word.KeepsLow i.width g') : (i.within g).within g' = i.within (g' ∘ g) := by
  simp only [Integer.within, clipped, hg.clip_clip h.width_le, Function.comp]

/-- Changes that undo each other on words do so within the width. -/
theorem WellFormed.within_cancel {g g' : Word → Word} (hg : Word.KeepsLow i.width g')
    (hcancel : ∀ x, g' (g x) = x) : (i.within g).within g' = i := by
  have hcomp : g' ∘ g = id := funext hcancel
  rw [h.within_within g hg, hcomp, h.within_id]

end Integer

namespace Value

def wordStep (up : Bool) (x : Word) : Word := if up then x + 1 else x - 1

private theorem keepsLow_wordStep {width : Nat} (hle : width ≤ 64) (up : Bool) :
    Word.KeepsLow width (wordStep up) := by
  cases up with
  | true => exact Word.keepsLow_add hle 1
  | false => exact Word.keepsLow_sub hle 1

private theorem wordStep_wordStep (up : Bool) (x : Word) : wordStep (!up) (wordStep up x) = x := by
  cases up with
  | true => exact BitVec.add_sub_cancel x 1
  | false => exact BitVec.sub_add_cancel x 1

section Integers

variable {v : Value} {i : Integer} (hv : v.datum = .integer i)

include hv

theorem plus_integer : v.plus = ofInteger i := by
  simp [plus, isValid, asRvalue, ofInteger, hv]

variable (hi : i.WellFormed)

include hi

private theorem minus_integer : v.minus = ofInteger (i.within (- ·)) := by
  simp only [minus, hv, hi.word_eq]
  rfl

private theorem step_integer (up : Bool) :
    v.step up = { ofInteger (i.within (wordStep up)) with lvalue := v.lvalue } := by
  simp only [step, hv, hi.word_eq]
  rfl

/-- A step keeps everything but the bits. -/
theorem step_keeps (up : Bool) :
    (v.step up).kind = v.kind ∧ (v.step up).width = v.width ∧
      (v.step up).isSigned = v.isSigned ∧ (v.step up).lvalue = v.lvalue := by
  rw [step_integer hv hi]
  simp [kind, width, isSigned, hv, ofInteger, Integer.within, Integer.clipped]

theorem minus_minus : v.minus.minus = v.plus := by
  rw [minus_integer hv hi, minus_integer rfl (hi.within _), plus_integer hv,
    hi.within_cancel (Word.keepsLow_neg hi.width_le) fun _ => BitVec.neg_neg]

theorem complement_complement : v.complement.complement = v.plus := by
  rw [complement_integer hv, complement_integer rfl, plus_integer hv,
    hi.within_cancel (Word.keepsLow_not hi.width_le) fun _ => BitVec.not_not]

theorem complement_eq_decrement : v.complement = v.minus.decrement := by
  have hnot : wordStep false ∘ (- ·) = (~~~ ·) := funext fun x => (BitVec.not_eq_neg_add x).symm
  rw [decrement, minus_integer hv hi, step_integer rfl (hi.within _), complement_integer hv,
    hi.within_within _ (keepsLow_wordStep hi.width_le false), hnot]
  rfl

theorem step_step (up : Bool) : (v.step up).step (!up) = v := by
  rw [step_integer hv hi, step_integer rfl (hi.within _),
    hi.within_cancel (keepsLow_wordStep hi.width_le _) (wordStep_wordStep up)]
  cases v
  cases hv
  rfl

end Integers

end Value

end HdlExpr
