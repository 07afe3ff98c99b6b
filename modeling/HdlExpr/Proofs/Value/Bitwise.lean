import HdlExpr.Proofs.Value.Fields
import HdlExpr.Proofs.Value.Slices

/-!
# Bitwise operators

The bitwise operators combine words of 64 bits and then clear what lies above the width of the
result.  Only complements set bits up there; the other operators would not need it.
-/

namespace HdlExpr

/-! ## Low bits -/

namespace Word

private theorem setWidth_clip {width : Nat} (hle : width ≤ 64) (x : Word) :
    (x.clip width).setWidth width = x.setWidth width := by
  unfold clip
  split
  · rfl
  · rw [BitVec.setWidth_setWidth_of_le _ hle, BitVec.setWidth_eq]

/-- The low bits of what an operation gives follow from those of its argument. -/
def KeepsLow (width : Nat) (g : Word → Word) : Prop :=
  ∀ x y : Word, x.setWidth width = y.setWidth width →
    (g x).setWidth width = (g y).setWidth width

/-- For such an operation the high bits may be cleared before it as well. -/
theorem KeepsLow.clip_clip {width : Nat} {g : Word → Word} (hg : KeepsLow width g)
    (hle : width ≤ 64) (x : Word) : (g (x.clip width)).clip width = (g x).clip width := by
  have hlow := hg _ _ (setWidth_clip hle x)
  by_cases h0 : width = 0
  · subst h0
    rfl
  · have hclip (y : Word) : y.clip width = (y.setWidth width).setWidth 64 := if_neg h0
    rw [hclip (g _), hclip (g x), hlow]

private theorem keepsLow_id (width : Nat) : KeepsLow width id :=
  fun _ _ h => h

theorem keepsLow_not {width : Nat} (hle : width ≤ 64) : KeepsLow width (~~~ ·) := by
  intro x y h
  rw [BitVec.setWidth_not hle, BitVec.setWidth_not hle, h]

private theorem clip_and (width : Nat) (x y : Word) :
    (x &&& y).clip width = x.clip width &&& y.clip width := by
  unfold clip
  split
  · rfl
  · rw [BitVec.setWidth_and, BitVec.setWidth_and]

private theorem clip_or (width : Nat) (x y : Word) :
    (x ||| y).clip width = x.clip width ||| y.clip width := by
  unfold clip
  split
  · rfl
  · rw [BitVec.setWidth_or, BitVec.setWidth_or]

end Word

/-! ## Integers -/

namespace Integer

def commonWidth (m n : Nat) : Nat := if m ≠ 0 ∧ n ≠ 0 then max m n else 0

private theorem commonWidth_comm (m n : Nat) : commonWidth m n = commonWidth n m := by
  simp only [commonWidth, and_comm, max_comm]

@[simp] private theorem commonWidth_self (n : Nat) : commonWidth n n = n := by
  unfold commonWidth
  split <;> omega

private theorem commonWidth_assoc (m n k : Nat) :
    commonWidth (commonWidth m n) k = commonWidth m (commonWidth n k) := by
  unfold commonWidth
  split <;> split <;> split <;> split <;> omega

theorem WellFormed.getLsbD_eq_false {i : Integer} (h : i.WellFormed) {k : Nat}
    (hk : i.limit ≤ k) : i.bits.getLsbD k = false :=
  Word.getLsbD_eq_false h.bits_lt hk

private theorem getLsbD_clipped {width : Nat} (hle : width ≤ 64) (x : Word) (signed : Bool)
    {k : Nat} (hk : k < (clipped x width signed).limit) :
    (clipped x width signed).bits.getLsbD k = x.getLsbD k := by
  unfold clipped limit at *
  dsimp only at *
  split at hk
  case isTrue h0 =>
    subst h0
    rfl
  case isFalse h0 => rw [Word.getLsbD_clip x h0 hle, decide_eq_true hk, Bool.true_and]

theorem WellFormed.commonWidth_le {i j : Integer} (hi : i.WellFormed) (hj : j.WellFormed) :
    commonWidth i.width j.width ≤ 64 := by
  have hw := hi.width_le
  have hw' := hj.width_le
  unfold commonWidth
  split <;> omega

def within (i : Integer) (g : Word → Word) : Integer := clipped (g i.bits) i.width i.signed

/-- What `f` makes of the bits of two integers. -/
def combined (f : Word → Word → Word) (i j : Integer) : Integer :=
  clipped (f i.bits j.bits) (commonWidth i.width j.width) (i.signed && j.signed)

theorem WellFormed.combined {i j : Integer} (hi : i.WellFormed) (hj : j.WellFormed)
    (f : Word → Word → Word) : (combined f i j).WellFormed := by
  apply clipped_wellFormed (hi.commonWidth_le hj)
  intro hs
  rw [hi.unsized (Bool.and_eq_true_iff.mp hs).1]
  rfl

theorem WellFormed.limit_combined {i j : Integer} (hi : i.WellFormed) (hj : j.WellFormed)
    (f : Word → Word → Word) : (Integer.combined f i j).limit = max i.limit j.limit := by
  have hw := hi.width_le
  have hw' := hj.width_le
  simp only [Integer.combined, clipped, limit, commonWidth]
  by_cases h0 : i.width = 0 <;> by_cases h0' : j.width = 0 <;> simp [h0, h0', hw, hw']

/-- An operation that sets no bits above those of its arguments. -/
def KeepsBound (f : Word → Word → Word) : Prop :=
  ∀ {x y : Word} {n : Nat}, x.toNat < 2 ^ n → y.toNat < 2 ^ n → (f x y).toNat < 2 ^ n

theorem WellFormed.bits_combined {i j : Integer} (hi : i.WellFormed) (hj : j.WellFormed)
    {f : Word → Word → Word} (hf : KeepsBound f) :
    (Integer.combined f i j).bits = f i.bits j.bits := by
  have hlimit := hi.limit_combined hj f
  have hbound : (f i.bits j.bits).toNat < 2 ^ (Integer.combined f i j).limit := by
    rw [hlimit]
    apply hf
    · exact hi.bits_lt.trans_le (Nat.pow_le_pow_right (by decide) (le_max_left _ _))
    · exact hj.bits_lt.trans_le (Nat.pow_le_pow_right (by decide) (le_max_right _ _))
  apply Word.clip_eq_self (hi.commonWidth_le hj)
  intro h0
  simpa [limit, Integer.combined, clipped, h0] using hbound

theorem WellFormed.combined_assoc {i j k : Integer} (hi : i.WellFormed) (hj : j.WellFormed)
    (hk : k.WellFormed) {f : Word → Word → Word} (hf : KeepsBound f)
    (hassoc : ∀ x y z, f (f x y) z = f x (f y z)) :
    Integer.combined f (Integer.combined f i j) k =
      Integer.combined f i (Integer.combined f j k) := by
  have hleft := hi.bits_combined hj hf
  have hright := hj.bits_combined hk hf
  unfold Integer.combined at *
  rw [hleft, hright, hassoc]
  simp only [clipped, commonWidth_assoc, Bool.and_assoc]

private theorem combined_comm {f : Word → Word → Word} (hcomm : ∀ x y, f x y = f y x)
    (i j : Integer) : combined f i j = combined f j i := by
  rw [combined, combined, hcomm, commonWidth_comm, Bool.and_comm]

end Integer

namespace Value

section Operands

variable {a b c : Value} {i j k : Integer} (ha : a.datum = .integer i) (hi : i.WellFormed)
  (hb : b.datum = .integer j) (hj : j.WellFormed) (hc : c.datum = .integer k) (hk : k.WellFormed)

include ha in
theorem complement_integer : a.complement = ofInteger (i.within (~~~ ·)) := by
  simp only [complement, ha]
  rfl

include ha hi hb hj

private theorem bitwise_integers (f : Word → Word → Word) :
    bitwise f a b = ofInteger (Integer.combined f i j) := by
  simp only [bitwise, operands, ha, hb, hi.word_eq, hj.word_eq]
  rfl

private theorem bitwise_comm {f : Word → Word → Word} (hcomm : ∀ x y, f x y = f y x) :
    bitwise f a b = bitwise f b a := by
  rw [bitwise_integers ha hi hb hj, bitwise_integers hb hj ha hi, Integer.combined_comm hcomm]

include hc hk in
private theorem bitwise_assoc {f : Word → Word → Word} (hf : Integer.KeepsBound f)
    (hassoc : ∀ x y z, f (f x y) z = f x (f y z)) :
    bitwise f (bitwise f a b) c = bitwise f a (bitwise f b c) := by
  rw [bitwise_integers ha hi hb hj, bitwise_integers rfl (hi.combined hj f) hc hk,
    bitwise_integers hb hj hc hk, bitwise_integers ha hi rfl (hj.combined hk f),
    hi.combined_assoc hj hk hf hassoc]

private theorem complement_bitwise (f : Word → Word → Word) :
    (bitwise f a b).complement = bitwise (fun x y => ~~~f x y) a b := by
  rw [bitwise_integers ha hi hb hj, bitwise_integers ha hi hb hj, complement_integer rfl]
  simp only [Integer.combined, Integer.within, Integer.clipped,
    (Word.keepsLow_not (hi.commonWidth_le hj)).clip_clip (hi.commonWidth_le hj)]

/-- Complements of integers that agree in width and sign are combined within that width. -/
theorem bitwise_complements {f : Word → Word → Word}
    (hf : ∀ x y : Word, (f x y).clip i.width = f (x.clip i.width) (y.clip i.width))
    (hw : i.width = j.width) (hs : i.signed = j.signed) :
    bitwise f a.complement b.complement = bitwise (fun x y => f (~~~x) (~~~y)) a b := by
  have hwell (x : Word) := Integer.clipped_wellFormed hi.width_le hi.unsized x
  have hclip (x : Word) : (x.clip i.width).clip i.width = x.clip i.width :=
    (Word.keepsLow_id i.width).clip_clip hi.width_le x
  rw [complement_integer ha, complement_integer hb, Integer.within, Integer.within, ← hw, ← hs,
    bitwise_integers rfl (hwell _) rfl (hwell _), bitwise_integers ha hi hb hj]
  simp only [Integer.combined, Integer.clipped, ← hw, ← hs, Integer.commonWidth_self, hf, hclip]

private theorem bitwise_bits (f : Word → Word → Word) (g : Bool → Bool → Bool)
    (hf : ∀ (x y : Word) (m : Nat), m < 64 →
      (f x y).getLsbD m = g (x.getLsbD m) (y.getLsbD m)) :
    ∃ r : Integer, bitwise f a b = ofInteger r ∧ r.WellFormed ∧
      (r.width ≠ 0 ↔ i.width ≠ 0 ∧ j.width ≠ 0) ∧ (r.width ≠ 0 → r.width = max i.width j.width) ∧
      (r.signed = true ↔ i.signed = true ∧ j.signed = true) ∧
      ∀ m < r.limit, r.bits.getLsbD m = g (i.bits.getLsbD m) (j.bits.getLsbD m) := by
  have hwell := hi.combined hj f
  have hwidth : (Integer.combined f i j).width = Integer.commonWidth i.width j.width := rfl
  refine ⟨_, bitwise_integers ha hi hb hj f, hwell, ?_, ?_, Bool.and_eq_true_iff, ?_⟩
  · rw [hwidth, Integer.commonWidth]
    split <;> omega
  · rw [hwidth, Integer.commonWidth]
    split <;> omega
  · intro m hm
    have hlimit := hwell.limit_le
    have hbit := Integer.getLsbD_clipped (hi.commonWidth_le hj) (f i.bits j.bits)
      (i.signed && j.signed) hm
    exact hbit.trans (hf _ _ _ (by omega))

private theorem complement_bitAnd (hw : i.width = j.width) (hs : i.signed = j.signed) :
    (a.bitAnd b).complement = a.complement.bitOr b.complement := by
  rw [bitAnd, bitOr, complement_bitwise ha hi hb hj,
    bitwise_complements ha hi hb hj (Word.clip_or _) hw hs]
  simp only [BitVec.not_and]

private theorem complement_bitOr (hw : i.width = j.width) (hs : i.signed = j.signed) :
    (a.bitOr b).complement = a.complement.bitAnd b.complement := by
  rw [bitAnd, bitOr, complement_bitwise ha hi hb hj,
    bitwise_complements ha hi hb hj (Word.clip_and _) hw hs]
  simp only [BitVec.not_or]

end Operands

private theorem keepsBound_and : Integer.KeepsBound (· &&& ·) := by
  intro x y n _ hy
  rw [BitVec.toNat_and]
  exact Nat.and_lt_two_pow _ hy

private theorem keepsBound_or : Integer.KeepsBound (· ||| ·) := by
  intro x y n hx hy
  rw [BitVec.toNat_or]
  exact Nat.or_lt_two_pow hx hy

private theorem keepsBound_xor : Integer.KeepsBound (· ^^^ ·) := by
  intro x y n hx hy
  rw [BitVec.toNat_xor]
  exact Nat.xor_lt_two_pow hx hy

/-- The bitwise operators, and what each of them makes of two bits. -/
def bitOperators : List ((Value → Value → Value) × (Bool → Bool → Bool)) :=
  [(bitAnd, and), (bitOr, or), (bitXor, xor), (bitXnor, fun p q => !xor p q)]

/-- The bitwise operators act on each bit by itself.  An operand has zeros above its width; the
result has a width if both operands have one, then the larger, and the bits below it are what the
operator makes of those of the operands.  The usual laws follow, with complements taken within the
width. -/
theorem bitwise_laws {a b : Value} {i j : Integer} (ha : a.datum = .integer i)
    (hb : b.datum = .integer j) (hi : i.WellFormed) (hj : j.WellFormed) :
    (∀ operand ∈ [i, j], ∀ m, operand.limit ≤ m → operand.bits.getLsbD m = false) ∧
    (∀ op ∈ bitOperators, ∃ r : Integer, op.1 a b = ofInteger r ∧ r.WellFormed ∧
      (r.width ≠ 0 ↔ i.width ≠ 0 ∧ j.width ≠ 0) ∧ (r.width ≠ 0 → r.width = max i.width j.width) ∧
      (r.signed = true ↔ i.signed = true ∧ j.signed = true) ∧
      ∀ m < r.limit, r.bits.getLsbD m = op.2 (i.bits.getLsbD m) (j.bits.getLsbD m)) ∧
    a.bitXnor b = (a.bitXor b).complement ∧
    (∀ f ∈ [bitAnd, bitOr, bitXor, bitXnor], f a b = f b a) ∧
    (∀ f ∈ [bitAnd, bitOr, bitXor], ∀ (c : Value) (k : Integer), c.datum = .integer k →
      k.WellFormed → f (f a b) c = f a (f b c)) ∧
    (i.width = j.width → i.signed = j.signed →
      (a.bitAnd b).complement = a.complement.bitOr b.complement ∧
      (a.bitOr b).complement = a.complement.bitAnd b.complement) := by
  refine ⟨?_, ?_, (complement_bitwise ha hi hb hj _).symm, ?_, ?_, ?_⟩
  · intro operand hmem m hm
    simp only [List.mem_cons, List.not_mem_nil, or_false] at hmem
    rcases hmem with rfl | rfl
    · exact hi.getLsbD_eq_false hm
    · exact hj.getLsbD_eq_false hm
  · intro op hop
    simp only [bitOperators, List.mem_cons, List.not_mem_nil, or_false] at hop
    rcases hop with rfl | rfl | rfl | rfl
    · exact bitwise_bits ha hi hb hj (· &&& ·) and fun x y m _ => BitVec.getLsbD_and
    · exact bitwise_bits ha hi hb hj (· ||| ·) or fun x y m _ => BitVec.getLsbD_or
    · exact bitwise_bits ha hi hb hj (· ^^^ ·) xor fun x y m _ => BitVec.getLsbD_xor
    · have hxnor (x y : Word) (m : Nat) (hm : m < 64) :
          (~~~(x ^^^ y)).getLsbD m = !xor (x.getLsbD m) (y.getLsbD m) := by
        rw [BitVec.getLsbD_not, BitVec.getLsbD_xor, decide_eq_true hm, Bool.true_and]
      exact bitwise_bits ha hi hb hj (fun x y => ~~~(x ^^^ y)) (fun p q => !xor p q) hxnor
  · intro f hf
    simp only [List.mem_cons, List.not_mem_nil, or_false] at hf
    rcases hf with rfl | rfl | rfl | rfl
    · exact bitwise_comm ha hi hb hj BitVec.and_comm
    · exact bitwise_comm ha hi hb hj BitVec.or_comm
    · exact bitwise_comm ha hi hb hj BitVec.xor_comm
    · exact bitwise_comm ha hi hb hj fun x y => congrArg (~~~ ·) (BitVec.xor_comm x y)
  · intro f hf c k hc hk
    simp only [List.mem_cons, List.not_mem_nil, or_false] at hf
    rcases hf with rfl | rfl | rfl
    · exact bitwise_assoc ha hi hb hj hc hk keepsBound_and BitVec.and_assoc
    · exact bitwise_assoc ha hi hb hj hc hk keepsBound_or BitVec.or_assoc
    · exact bitwise_assoc ha hi hb hj hc hk keepsBound_xor BitVec.xor_assoc
  · intro hw hs
    exact ⟨complement_bitAnd ha hi hb hj hw hs, complement_bitOr ha hi hb hj hw hs⟩

/-- Four bits and eight, where the equivalence has ones above the four; the same with a signed
number, which takes the width away; and two numbers of four bits. -/
theorem bitwise_laws_mixed :
    let four : Integer := ⟨0b1010, 4, false⟩
    let other : Integer := ⟨0b0110, 4, false⟩
    let eight : Integer := ⟨0b01001100, 8, false⟩
    let minus : Integer := ⟨-2, 0, true⟩
    (∃ r : Integer, (ofInteger four).bitXnor (ofInteger eight) = ofInteger r ∧
      r.width = max 4 8 ∧ r.signed = false ∧
      ∀ m < 8, r.bits.getLsbD m = !xor (four.bits.getLsbD m) (eight.bits.getLsbD m)) ∧
    ((ofInteger four).bitXor (ofInteger eight)).bitXor (ofInteger minus) =
      (ofInteger four).bitXor ((ofInteger eight).bitXor (ofInteger minus)) ∧
    ((ofInteger four).bitAnd (ofInteger other)).complement =
      (ofInteger four).complement.bitOr (ofInteger other).complement := by
  intro four other eight minus
  have hfour : four.WellFormed := ⟨by decide, by decide, by simp [four]⟩
  have hother : other.WellFormed := ⟨by decide, by decide, by simp [other]⟩
  have height : eight.WellFormed := ⟨by decide, by decide, by simp [eight]⟩
  have hminus : minus.WellFormed := Integer.wellFormed_of_unsized _ true
  obtain ⟨-, hbits, -, -, hassoc, -⟩ :=
    bitwise_laws (a := ofInteger four) (b := ofInteger eight) rfl rfl hfour height
  obtain ⟨-, -, -, -, -, hmorgan⟩ :=
    bitwise_laws (a := ofInteger four) (b := ofInteger other) rfl rfl hfour hother
  obtain ⟨r, hr, -, hsized, hwidth, hsigned, hbit⟩ :=
    hbits (bitXnor, fun p q => !xor p q) (by simp [bitOperators])
  have hw : r.width = 8 := hwidth (hsized.mpr ⟨by decide, by decide⟩)
  have hlimit : r.limit = 8 := by simp [Integer.limit, hw]
  refine ⟨⟨r, hr, hw, ?_, hlimit ▸ hbit⟩, ?_, (hmorgan rfl rfl).1⟩
  · rw [← Bool.not_eq_true, hsigned]
    simp [four]
  · exact hassoc bitXor (by simp) (ofInteger minus) minus rfl hminus

end Value

end HdlExpr
