import Mathlib.Data.BitVec
import Mathlib.Data.Nat.Size
import HdlExpr.Proofs.Value.Arithmetic

/-!
# Powers of integers

A power is computed by repeated squaring, where the product and the squares wrap.  Each turn keeps
what product, square and exponent stand for together and halves the exponent, so that after as many
turns as the exponent has bits the product alone is the power.  A negative exponent has a meaning
only for one and minus one; all other numbers but zero then give zero.
-/

namespace HdlExpr

/-! ## Squaring -/

theorem Word.getLsbD_zero (w : Word) : w.getLsbD 0 = decide (w.toNat % 2 = 1) := by
  rw [BitVec.getLsbD, Nat.testBit_zero]

namespace Word.Squaring

/-- The power that is still to come, multiplied into the product. -/
def value (s : Squaring) : Word := s.product * s.square ^ s.exponent.toNat

private theorem value_turn (s : Squaring) : s.turn.value = s.value := by
  have hsquare : (s.square * s.square) ^ (s.exponent.toNat / 2) =
      s.square ^ (2 * (s.exponent.toNat / 2)) := by
    rw [pow_mul, sq]
  have hturn : s.turn.value = (if s.exponent.getLsbD 0 then s.product * s.square else s.product) *
      s.square ^ (2 * (s.exponent.toNat / 2)) := by
    rw [value, toNat_exponent_turn, ← hsquare]
    rfl
  rw [hturn, value, Word.getLsbD_zero]
  rcases Nat.mod_two_eq_zero_or_one s.exponent.toNat with heven | hodd
  · have hexponent : 2 * (s.exponent.toNat / 2) = s.exponent.toNat := by omega
    rw [hexponent]
    simp [heven]
  · have hexponent : s.exponent.toNat = 2 * (s.exponent.toNat / 2) + 1 := by omega
    conv_rhs => rw [hexponent, pow_succ']
    simp [hodd, mul_assoc]

private theorem value_iterate (s : Squaring) (k : Nat) : (turn^[k] s).value = s.value := by
  induction k with
  | zero => rfl
  | succ k ih => rw [Function.iterate_succ_apply', value_turn, ih]

private theorem toNat_exponent_iterate (s : Squaring) (k : Nat) :
    (turn^[k] s).exponent.toNat = s.exponent.toNat / 2 ^ k := by
  induction k with
  | zero => simp
  | succ k ih =>
    rw [Function.iterate_succ_apply', toNat_exponent_turn, ih, Nat.div_div_eq_div_mul, pow_succ]

/-- Nothing is left of the exponent exactly after as many turns as it has bits. -/
theorem exponent_iterate_eq_zero_iff (s : Squaring) (k : Nat) :
    (turn^[k] s).exponent = 0 ↔ s.exponent.toNat.size ≤ k := by
  have hzero : (turn^[k] s).exponent = 0 ↔ s.exponent.toNat / 2 ^ k = 0 := by
    rw [← toNat_exponent_iterate]
    exact BitVec.toNat_eq
  rw [hzero, Nat.div_eq_zero_iff_lt (by positivity), Nat.size_le]

private theorem finish_iterate (s : Squaring) (k : Nat) (h : k ≤ s.exponent.toNat.size) :
    (turn^[k] s).finish = s.finish := by
  induction k with
  | zero => rfl
  | succ k ih =>
    have hleft : (turn^[k] s).exponent ≠ 0 := by
      rw [Ne, exponent_iterate_eq_zero_iff]
      omega
    rw [← ih (by omega), Function.iterate_succ_apply']
    conv_rhs => rw [finish, if_neg hleft]

private theorem finish_eq_product (s : Squaring) :
    s.finish = (turn^[s.exponent.toNat.size] s).product := by
  have hdone := (exponent_iterate_eq_zero_iff s s.exponent.toNat.size).mpr le_rfl
  rw [← finish_iterate s _ le_rfl, finish, if_pos hdone]

private theorem finish_eq_value (s : Squaring) : s.finish = s.value := by
  have hdone := (exponent_iterate_eq_zero_iff s s.exponent.toNat.size).mpr le_rfl
  rw [finish_eq_product, ← value_iterate s s.exponent.toNat.size, value, hdone]
  simp

end Word.Squaring

theorem Word.size_le (w : Word) : w.toNat.size ≤ 64 := Nat.size_le.mpr w.isLt

theorem Word.toNat_power (x y : Word) : (Word.power x y).toNat = x.toNat ^ y.toNat % 2 ^ 64 := by
  have hpower : Word.power x y = x ^ y.toNat := by
    rw [Word.power, Word.Squaring.finish_eq_value, Word.Squaring.value, one_mul]
  rw [hpower]
  induction y.toNat with
  | zero => rfl
  | succ n ih => rw [pow_succ, pow_succ, BitVec.toNat_mul, ih, Nat.mod_mul_mod]

theorem Word.getLsbD_zero_iff_odd (w : Word) : w.getLsbD 0 = true ↔ Odd w.toInt := by
  have hlt := w.isLt
  rw [Word.getLsbD_zero, decide_eq_true_iff, Int.odd_iff, BitVec.toInt_eq_toNat_cond]
  split <;> omega

namespace Integer

/-- A signed integer has the word of a number that fits exactly when it denotes that number. -/
theorem word_eq_ofInt_iff {i : Integer} (hs : i.signed = true) {n : Int}
    (hn : (BitVec.ofInt 64 n).toInt = n) : i.word = BitVec.ofInt 64 n ↔ i.toInt = n := by
  constructor
  · intro hw
    rw [toInt_signed hs, hw, hn]
  · intro ht
    rw [← i.ofInt_toInt, ht]

end Integer

namespace Value

section Integers

variable {a b : Value} {i j : Integer} (ha : a.datum = .integer i) (hb : b.datum = .integer j)

include ha hb

private theorem power_negative (hi : i.signed = true) (hj : j.signed = true) (hneg : j.toInt < 0) :
    a.power b =
      if i.toInt = 0 then invalid
      else if i.toInt = 1 then Value.signed 1
      else if i.toInt = -1 then Value.signed (if Odd j.toInt then -1 else 1)
      else Value.signed 0 := by
  have hzero : i.word = 0 ↔ i.toInt = 0 := i.word_eq_zero_iff
  have hone : i.word = 1 ↔ i.toInt = 1 := Integer.word_eq_ofInt_iff (n := 1) hi (by decide)
  have hminus : i.word = -1 ↔ i.toInt = -1 := by
    have hones : (-1 : Word) = BitVec.ofInt 64 (-1) := by decide
    rw [hones]
    exact Integer.word_eq_ofInt_iff hi (by decide)
  have hodd : j.word.getLsbD 0 = true ↔ Odd j.toInt := by
    rw [Integer.toInt_signed hj, Word.getLsbD_zero_iff_odd]
  have hbranch : (i.signed && j.signed && decide (j.word.toInt < 0)) = true := by
    rw [Integer.toInt_signed hj] at hneg
    simp [hi, hj, hneg]
  have hsome (w : Word) (h : wordPower i.word j.word (i.signed && j.signed) = some w) :
      a.power b = Value.signed w := by
    rw [power, arithmetic_some ha hb h, hi, hj]
    rfl
  simp only [wordPower, hbranch, if_true, hzero, hone, hminus, hodd] at hsome
  split
  case isTrue h =>
    apply arithmetic_none ha hb
    rw [wordPower, if_pos hbranch, if_pos (hzero.mpr h)]
  case isFalse h =>
    split
    case isTrue h1 => exact hsome 1 (by rw [if_neg h, if_pos h1])
    case isFalse h1 =>
      split
      case isTrue h2 =>
        apply hsome
        rw [if_neg h, if_neg h1, if_pos h2, hminus.mpr h2]
      case isFalse h2 => exact hsome 0 (by rw [if_neg h, if_neg h1, if_neg h2])

private theorem power_of_words (h : ¬(i.signed = true ∧ j.signed = true ∧ j.toInt < 0)) :
    a.power b = ofInteger ⟨Word.power i.word j.word, 0, i.signed && j.signed⟩ := by
  apply arithmetic_some ha hb
  apply if_neg
  intro hbranch
  simp only [Bool.and_eq_true, decide_eq_true_eq] at hbranch
  obtain ⟨⟨hi, hj⟩, hneg⟩ := hbranch
  rw [← Integer.toInt_signed hj] at hneg
  exact h ⟨hi, hj, hneg⟩

end Integers

/-- Powers of integers are right for all operands.  With a negative exponent, which only a signed
one can be, zero has no power, one and minus one have powers by its parity, and all others vanish.
Otherwise the bits are those of the power of the two bit patterns; and the turns of the computation
come to an end after at most 64, exactly when nothing is left of the exponent. -/
theorem power_exact {a b : Value} {i j : Integer} (ha : a.datum = .integer i)
    (hb : b.datum = .integer j) (hi : i.WellFormed) (hj : j.WellFormed) :
    (i.signed = true ∧ j.signed = true ∧ j.toInt < 0 →
      (i.toInt = 0 → a.power b = invalid) ∧
      (i.toInt = 1 → a.power b = Value.signed 1) ∧
      (i.toInt = -1 → a.power b = Value.signed (if Odd j.toInt then -1 else 1)) ∧
      (i.toInt ≠ 0 → i.toInt ≠ 1 → i.toInt ≠ -1 → a.power b = Value.signed 0)) ∧
    (¬(i.signed = true ∧ j.signed = true ∧ j.toInt < 0) →
      ∃ k : Integer, a.power b = ofInteger k ∧ k.width = 0 ∧ k.signed = (i.signed && j.signed) ∧
        k.bits.toNat = i.bits.toNat ^ j.bits.toNat % 2 ^ 64) ∧
    ∀ x y : Word, ∃ turns ≤ 64,
      (∀ k, (Word.Squaring.turn^[k] ⟨1, x, y⟩).exponent = 0 ↔ turns ≤ k) ∧
      Word.power x y = (Word.Squaring.turn^[turns] ⟨1, x, y⟩).product := by
  refine ⟨?_, ?_, ?_⟩
  · rintro ⟨si, sj, hneg⟩
    have hpower := power_negative ha hb si sj hneg
    refine ⟨?_, ?_, ?_, ?_⟩
    · intro h
      rw [hpower, if_pos h]
    · intro h
      rw [hpower, h]
      rfl
    · intro h
      rw [hpower, h]
      rfl
    · intro h0 h1 h2
      rw [hpower, if_neg h0, if_neg h1, if_neg h2]
  · intro hwords
    refine ⟨_, power_of_words ha hb hwords, rfl, rfl, ?_⟩
    rw [Word.toNat_power, hi.word_eq, hj.word_eq]
  · intro x y
    refine ⟨y.toNat.size, Word.size_le y, ?_, ?_⟩
    · intro k
      exact Word.Squaring.exponent_iterate_eq_zero_iff ⟨1, x, y⟩ k
    · exact Word.Squaring.finish_eq_product ⟨1, x, y⟩

/-- Minus one to an odd negative power, and a negative number to a power of four bits, which makes
it a large one. -/
theorem power_exact_corners :
    let minus : Integer := ⟨BitVec.ofInt 64 (-1), 0, true⟩
    let three : Integer := ⟨3, 4, false⟩
    (ofInteger minus).power (ofInteger minus) = Value.signed (if Odd (-1 : Int) then -1 else 1) ∧
    ∃ k : Integer, (ofInteger minus).power (ofInteger three) = ofInteger k ∧ k.width = 0 ∧
      k.signed = false ∧ k.bits.toNat = (2 ^ 64 - 1) ^ 3 % 2 ^ 64 := by
  intro minus three
  have hminus : minus.WellFormed := Integer.wellFormed_of_unsized _ true
  have hthree : three.WellFormed := ⟨by decide, by decide, by simp [three]⟩
  have hnegative := (power_exact (a := ofInteger minus) (b := ofInteger minus) rfl rfl hminus
    hminus).1 ⟨rfl, rfl, by decide⟩
  have hwords := (power_exact (a := ofInteger minus) (b := ofInteger three) rfl rfl hminus
    hthree).2.1 (by simp [three])
  exact ⟨hnegative.2.2.1 (by decide), hwords⟩

end Value

end HdlExpr
