import Mathlib.Data.List.Induction
import HdlExpr.Proofs.Numeral.Parts

/-!
# Words in a base

Digits are read into a word that wraps around, next to a flag that is never cleared.  Together they
tell all that matters of the number that has been read: the word has its low 64 bits, and the flag
is set exactly when there are more.
-/

namespace HdlExpr

/-- Nothing is lost in two words, the carry of the sum included. -/
theorem Word.mulAdd_exact (x y z : Word) :
    (x.mulAdd y z).high.toNat * 2 ^ 64 + (x.mulAdd y z).low.toNat =
      x.toNat * y.toNat + z.toNat := by
  have hx := x.isLt
  have hy := y.isLt
  have hz := z.isLt
  have hbound : x.toNat * y.toNat ≤ (2 ^ 64 - 1) * (2 ^ 64 - 1) :=
    Nat.mul_le_mul (by omega) (by omega)
  have hproduct : (x.setWidth 128 * y.setWidth 128).toNat = x.toNat * y.toNat := by
    rw [BitVec.toNat_mul, BitVec.toNat_setWidth_of_le (by decide),
      BitVec.toNat_setWidth_of_le (by decide)]
    exact Nat.mod_eq_of_lt (by omega)
  unfold Word.mulAdd
  dsimp only
  generalize x.setWidth 128 * y.setWidth 128 = product at hproduct ⊢
  have hlow : (product.setWidth 64).toNat = product.toNat % 2 ^ 64 := BitVec.toNat_setWidth ..
  have hhigh : (product.extractLsb' 64 64).toNat = product.toNat / 2 ^ 64 := by
    rw [BitVec.extractLsb'_toNat, Nat.shiftRight_eq_div_pow]
    exact Nat.mod_eq_of_lt (by omega)
  have hsum : (product.setWidth 64 + z).toNat = (product.toNat % 2 ^ 64 + z.toNat) % 2 ^ 64 := by
    rw [BitVec.toNat_add, hlow]
  split
  case isTrue hcarry =>
    have hone : (1 : Word).toNat = 1 := rfl
    have hnext : (product.extractLsb' 64 64 + 1).toNat = product.toNat / 2 ^ 64 + 1 := by
      rw [BitVec.toNat_add, hhigh, hone]
      exact Nat.mod_eq_of_lt (by omega)
    rw [BitVec.lt_def, hsum, hlow] at hcarry
    rw [hnext, hsum]
    omega
  case isFalse hcarry =>
    rw [BitVec.lt_def, hsum, hlow] at hcarry
    rw [hhigh, hsum]
    omega

theorem Word.toNat_mulAdd_low (x y z : Word) :
    (x.mulAdd y z).low.toNat = (x.toNat * y.toNat + z.toNat) % 2 ^ 64 := by
  rw [← Word.mulAdd_exact, Nat.mul_add_mod_self_right, Nat.mod_eq_of_lt (BitVec.isLt _)]

theorem Word.mulAdd_high_eq_zero_iff (x y z : Word) :
    (x.mulAdd y z).high = 0 ↔ x.toNat * y.toNat + z.toNat < 2 ^ 64 := by
  have hexact := Word.mulAdd_exact x y z
  have hlow := (x.mulAdd y z).low.isLt
  have hzero : (x.mulAdd y z).high = 0 ↔ (x.mulAdd y z).high.toNat = 0 := BitVec.toNat_inj.symm
  rw [hzero]
  omega

namespace Numeral

def Register.of (n : Nat) : Register := ⟨BitVec.ofNat 64 n, decide (2 ^ 64 ≤ n)⟩

theorem Register.push_of (n : Nat) {base : Nat} (hpos : 0 < base) (hbase : base ≤ 16) {c : Char}
    (hc : digitValue c < base) :
    (Register.of n).push base c = Register.of (n * base + digitValue c) := by
  have hword : (BitVec.ofNat 64 base).toNat = base := Nat.mod_eq_of_lt (by omega)
  have hdigit : (BitVec.ofNat 64 (digitValue c)).toNat = digitValue c :=
    Nat.mod_eq_of_lt (by omega)
  simp only [Register.push, Register.of, Register.mk.injEq]
  refine ⟨?_, ?_⟩
  · apply BitVec.eq_of_toNat_eq
    rw [Word.toNat_mulAdd_low, hword, hdigit, BitVec.toNat_ofNat, BitVec.toNat_ofNat, Nat.add_mod,
      Nat.mod_mul_mod, ← Nat.add_mod]
  · rw [Bool.eq_iff_iff, Bool.or_eq_true, decide_eq_true_eq, decide_eq_true_eq, bne_iff_ne, Ne,
      Word.mulAdd_high_eq_zero_iff, hword, hdigit, BitVec.toNat_ofNat]
    -- As long as the number fits, the word is the number; after that it does not shrink.
    have hgrows : n ≤ n * base := Nat.le_mul_of_pos_right n hpos
    by_cases hn : 2 ^ 64 ≤ n
    · simp only [hn, true_or, true_iff]
      omega
    · rw [Nat.mod_eq_of_lt (by omega)]
      omega

private theorem foldl_push {base : Nat} (hpos : 0 < base) (hbase : base ≤ 16) (digits : List Char)
    (h : ∀ c ∈ digits, IsDigit base c) :
    digits.foldl (Register.push base) {} = Register.of (number base digits) := by
  induction digits using List.reverseRecOn with
  | nil => rfl
  | append_singleton digits c ih =>
    have hdigit : IsDigit base c := h c (by simp)
    have hvalue : digitValue c < base := (digitValue_lt_iff hbase c).mpr hdigit
    rw [List.foldl_append, ih fun d hd => h d (by simp [hd]), List.foldl_cons, List.foldl_nil,
      Register.push_of _ hpos hbase hvalue, number_concat, hdigit.digitValue_eq]

private theorem toNat_negated (n : Nat) :
    ((-BitVec.ofNat 64 n).toNat : Int) = -(n : Int) % 2 ^ 64 := by
  rw [BitVec.toNat_neg, BitVec.toNat_ofNat]
  omega

/-- The word of a number that is held at the upper end of its range. -/
theorem Parts.Splits.based_eq {p : Parts} {base : Nat} {text : String} (hp : p.Splits base text)
    (hpos : 0 < base) (hbase : base ≤ 16) :
    based base text = if 2 ^ 64 ≤ number base p.digits then BitVec.allOnes 64
      else if p.sign = ['-'] then -BitVec.ofNat 64 (number base p.digits)
      else BitVec.ofNat 64 (number base p.digits) := by
  obtain ⟨htext, hfits⟩ := hp
  simp only [based, ← htext, hfits.trimLeft_eq, hfits.splitSign_eq, hfits.dropMark_eq,
    hfits.takeWhile_eq hbase, foldl_push hpos hbase _ hfits.digits, Register.of,
    decide_eq_true_eq]

/-- A word in a base is the number that its digits write.  A text is cut in one way only; the number
takes the greatest word when it does not fit, whatever its sign, and is negated modulo `2 ^ 64`
otherwise after a minus.  What follows the digits may be exchanged. -/
theorem based_saturates (base : Nat) (hbase : base ∈ [2, 8, 10, 16]) (text : String) :
    ∃ p : Parts, (∀ q : Parts, q.Splits base text ↔ q = p) ∧
      (based base text).toNat =
        (if 2 ^ 64 ≤ number base p.digits then 2 ^ 64 - 1
        else if p.sign = ['-'] then -(number base p.digits : Int) % 2 ^ 64
        else number base p.digits : Int) ∧
      ∀ rest : List Char, { p with rest := rest }.Fits base →
        based base (String.ofList { p with rest := rest }.whole) = based base text := by
  have hrange : 0 < base ∧ base ≤ 16 := by
    simp only [List.mem_cons, List.not_mem_nil, or_false] at hbase
    omega
  obtain ⟨hpos, hle⟩ := hrange
  obtain ⟨p, hp⟩ := Parts.exists_splits hle text
  have hsplits : p.Splits base text := (hp p).mpr rfl
  have hbased := hsplits.based_eq hpos hle
  refine ⟨p, hp, ?_, ?_⟩
  · rw [hbased]
    split
    case isTrue => rfl
    case isFalse h =>
      split
      · exact toNat_negated _
      · rw [BitVec.toNat_ofNat, Nat.mod_eq_of_lt (by omega)]
  · intro rest hfits
    have hrest : Parts.Splits { p with rest := rest } base
        (String.ofList { p with rest := rest }.whole) := ⟨by rw [String.toList_ofList], hfits⟩
    rw [hbased, hrest.based_eq hpos hle]

/-- Two hexadecimal digits after a mark and a minus, and the least number that is too large. -/
theorem based_saturates_marked :
    (based 16 "\t-0xfFg").toNat = (-255 : Int) % 2 ^ 64 ∧
      (based 10 "-18446744073709551616").toNat = (2 ^ 64 - 1 : Int) := by
  have hmarked : Parts.Splits ⟨['\t'], ['-'], ['0', 'x'], ['f', 'F'], ['g']⟩ 16 "\t-0xfFg" := by
    have hmark : Parts.IsMarked ['0', 'x', 'f', 'F', 'g'] :=
      ⟨'x', 'f', ['F', 'g'], rfl, .inl rfl, by decide⟩
    refine ⟨by decide, ⟨?_, ?_, by simp, by simp, .inr ⟨rfl, by simp, hmark⟩, by simp, ?_, ?_⟩⟩
    · simp [Text.isBlank]
    · simp [Parts.afterBlanks, Text.isBlank]
    · simp [IsDigit, digitSigns]
    · simp [IsDigit, digitSigns]
  have hlarge : Parts.Splits ⟨[], ['-'], [], "18446744073709551616".toList, []⟩ 10
      "-18446744073709551616" := by
    refine ⟨by decide, ⟨by simp, ?_, by simp, by simp, .inl rfl, by simp, ?_, by simp⟩⟩
    · simp [Parts.afterBlanks, Text.isBlank]
    · simp [IsDigit, digitSigns]
  obtain ⟨p, hp, hvalue, -⟩ := based_saturates 16 (by decide) "\t-0xfFg"
  obtain ⟨q, hq, hend, -⟩ := based_saturates 10 (by decide) "-18446744073709551616"
  obtain rfl := (hp _).mp hmarked
  obtain rfl := (hq _).mp hlarge
  refine ⟨?_, ?_⟩
  · rw [hvalue]
    decide
  · rw [hend]
    decide

end Numeral

end HdlExpr
