import HdlExpr.Proofs.Value.Arithmetic

/-!
# Shifts

A shift multiplies or divides by a power of two, however large the amount is.  In words an amount
from 64 on leaves nothing but zeros or copies of the sign.
-/

namespace HdlExpr

/-! ## Words -/

private theorem two_pow_split {n : Nat} (h : 64 ≤ n) : (2 : Nat) ^ n = 2 ^ 64 * 2 ^ (n - 64) := by
  rw [← Nat.pow_add]
  congr 1
  omega

/-- Nothing is left of a word that is moved out of its place. -/
theorem Word.toNat_shiftLeft_far (w : Word) (n : Nat) :
    (if 64 ≤ n then 0 else w <<< n).toNat = w.toNat * 2 ^ n % 2 ^ 64 := by
  split
  case isTrue h =>
    rw [two_pow_split h, Nat.mul_left_comm, Nat.mul_mod_right]
    rfl
  case isFalse => rw [BitVec.toNat_shiftLeft, Nat.shiftLeft_eq]

theorem Word.toNat_shiftRight_far (w : Word) (n : Nat) :
    (if 64 ≤ n then 0 else w >>> n).toNat = w.toNat / 2 ^ n := by
  split
  case isTrue h =>
    have hzero : w.toNat / 2 ^ 64 = 0 := Nat.div_eq_of_lt w.isLt
    rw [two_pow_split h, ← Nat.div_div_eq_div_mul, hzero, Nat.zero_div]
    rfl
  case isFalse => rw [BitVec.toNat_ushiftRight, Nat.shiftRight_eq_div_pow]

/-- Once all bits are copies of the sign, further shifts change nothing. -/
theorem Word.toInt_sshiftRight_min (w : Word) (n : Nat) :
    (w.sshiftRight (min n 63)).toInt = w.toInt / 2 ^ n := by
  rw [BitVec.toInt_sshiftRight, Int.shiftRight_eq_div_pow]
  push_cast
  by_cases h : n ≤ 63
  · rw [Nat.min_eq_left h]
  · have hpow : (2 : Int) ^ n = 2 ^ 63 * 2 ^ (n - 63) := by
      rw [← pow_add]
      congr 1
      omega
    have hpos : (0 : Int) < 2 ^ (n - 63) := by positivity
    have hlow := w.le_toInt
    have hhigh := w.toInt_lt
    have hsign : w.toInt / 2 ^ 63 = 0 ∨ w.toInt / 2 ^ 63 = -1 := by omega
    rw [Nat.min_eq_right (by omega), hpow, ← Int.ediv_ediv_of_nonneg (by positivity)]
    rcases hsign with hs | hs
    · rw [hs, Int.zero_ediv]
    · rw [hs, Int.neg_one_ediv, Int.sign_eq_one_of_pos hpos]

/-! ## Integers -/

namespace Integer

/-- An integer with its bits times `2 ^ n`, as far as there is room for them. -/
def scaled (i : Integer) (n : Nat) : Integer :=
  { i with bits := BitVec.ofNat 64 (i.bits.toNat * 2 ^ n % 2 ^ i.limit) }

/-- An integer with its bits divided by `2 ^ n`. -/
def divided (i : Integer) (n : Nat) : Integer :=
  { i with bits := BitVec.ofNat 64 (i.bits.toNat / 2 ^ n) }

/-- An integer with the number that it denotes divided by `2 ^ n`. -/
def floored (i : Integer) (n : Nat) : Integer :=
  { i with bits := BitVec.ofInt 64 (i.toInt / 2 ^ n) }

theorem WellFormed.toNat_scaled {i : Integer} (h : i.WellFormed) (n : Nat) :
    (i.scaled n).bits.toNat = i.bits.toNat * 2 ^ n % 2 ^ i.limit := by
  have hpow : 2 ^ i.limit ≤ 2 ^ 64 := Nat.pow_le_pow_right (by decide) h.limit_le
  have hlt : i.bits.toNat * 2 ^ n % 2 ^ i.limit < 2 ^ i.limit := Nat.mod_lt _ (by positivity)
  rw [scaled, BitVec.toNat_ofNat, Nat.mod_eq_of_lt (hlt.trans_le hpow)]

private theorem toNat_divided (i : Integer) (n : Nat) :
    (i.divided n).bits.toNat = i.bits.toNat / 2 ^ n := by
  have hlt : i.bits.toNat / 2 ^ n < 2 ^ 64 := (Nat.div_le_self _ _).trans_lt i.bits.isLt
  rw [divided, BitVec.toNat_ofNat, Nat.mod_eq_of_lt hlt]

theorem WellFormed.toInt_floored {i : Integer} (h : i.WellFormed) (hs : i.signed = true)
    (n : Nat) : (i.floored n).toInt = i.toInt / 2 ^ n := by
  have hword : (i.floored n).word = BitVec.ofInt 64 (i.toInt / 2 ^ n) := by
    simp [floored, word, h.unsized hs]
  rw [toInt_signed hs, ← Word.toInt_sshiftRight_min, BitVec.ofInt_toInt] at hword
  rw [toInt_signed (i := i.floored n) hs, toInt_signed hs, hword, Word.toInt_sshiftRight_min]

private theorem divided_eq_floored {i : Integer} (hs : i.signed = false) (n : Nat) :
    i.divided n = i.floored n := by
  have hnumber : i.toInt = i.bits.toNat := by simp [toInt, hs]
  have hquotient : i.toInt / 2 ^ n = ((i.bits.toNat / 2 ^ n : Nat) : Int) := by
    rw [hnumber]
    push_cast
    rfl
  rw [divided, floored, hquotient, BitVec.ofInt_natCast]

theorem WellFormed.scaled {i : Integer} (h : i.WellFormed) (n : Nat) : (i.scaled n).WellFormed := by
  refine ⟨h.width_le, ?_, h.unsized⟩
  rw [h.toNat_scaled]
  exact Nat.mod_lt _ (by positivity)

theorem WellFormed.divided {i : Integer} (h : i.WellFormed) (n : Nat) :
    (i.divided n).WellFormed := by
  refine ⟨h.width_le, ?_, h.unsized⟩
  rw [toNat_divided]
  exact (Nat.div_le_self _ _).trans_lt h.bits_lt

theorem WellFormed.floored {i : Integer} (h : i.WellFormed) (n : Nat) :
    (i.floored n).WellFormed := by
  cases hs : i.signed with
  | true =>
    have hwidth := h.unsized hs
    refine ⟨h.width_le, ?_, h.unsized⟩
    have hlimit : (i.floored n).limit = 64 := by simp [Integer.floored, limit, hwidth]
    rw [hlimit]
    exact (i.floored n).bits.isLt
  | false => exact divided_eq_floored hs n ▸ h.divided n

theorem WellFormed.scaled_scaled {i : Integer} (h : i.WellFormed) (n m : Nat) :
    (i.scaled n).scaled m = i.scaled (n + m) := by
  have hlimit : (i.scaled n).limit = i.limit := rfl
  have hbits : (i.scaled n).bits.toNat * 2 ^ m % 2 ^ i.limit =
      i.bits.toNat * 2 ^ (n + m) % 2 ^ i.limit := by
    rw [h.toNat_scaled, Nat.mod_mul_mod, Nat.mul_assoc, ← Nat.pow_add]
  rw [Integer.scaled, hlimit, hbits]
  rfl

private theorem divided_divided (i : Integer) (n m : Nat) :
    (i.divided n).divided m = i.divided (n + m) := by
  have hbits : (i.divided n).bits.toNat / 2 ^ m = i.bits.toNat / 2 ^ (n + m) := by
    rw [toNat_divided, Nat.div_div_eq_div_mul, ← Nat.pow_add]
  rw [divided, hbits]
  rfl

theorem WellFormed.floored_floored {i : Integer} (h : i.WellFormed) (n m : Nat) :
    (i.floored n).floored m = i.floored (n + m) := by
  cases hs : i.signed with
  | true =>
    have hnumber : (i.floored n).toInt / 2 ^ m = i.toInt / 2 ^ (n + m) := by
      rw [h.toInt_floored hs, Int.ediv_ediv_of_nonneg (by positivity), ← pow_add]
    rw [Integer.floored, hnumber]
    rfl
  | false =>
    have hn : (i.divided n).signed = false := hs
    rw [← divided_eq_floored hs, ← divided_eq_floored hn, divided_divided, divided_eq_floored hs]

theorem WellFormed.le_toNat_of_neg {i : Integer} (h : i.WellFormed) (hneg : i.toInt < 0) :
    2 ^ 63 ≤ i.bits.toNat := by
  cases hs : i.signed with
  | true =>
    rw [toInt_signed hs, h.word_eq, BitVec.toInt_eq_toNat_cond] at hneg
    have hlt := i.bits.isLt
    split at hneg <;> omega
  | false =>
    simp only [toInt, hs, Bool.false_eq_true, if_false] at hneg
    omega

end Integer

namespace Value

section Amounts

variable {a b : Value} {i j : Integer} (ha : a.datum = .integer i) (hb : b.datum = .integer j)

include ha hb

private theorem shift_integers (f : Integer → Nat → Word) :
    shift f a b = ofInteger (Integer.clipped (f i j.bits.toNat) i.width i.signed) := by
  simp [shift, operands, ha, hb]

private theorem shiftLeft_integers (hi : i.WellFormed) :
    a.shiftLeft b = ofInteger (i.scaled j.bits.toNat) := by
  have hdvd : 2 ^ i.limit ∣ 2 ^ 64 := Nat.pow_dvd_pow 2 hi.limit_le
  have hbits : Word.clip i.width (if 64 ≤ j.bits.toNat then 0 else i.bits <<< j.bits.toNat) =
      (i.scaled j.bits.toNat).bits := by
    apply BitVec.eq_of_toNat_eq
    rw [Word.toNat_clip hi.width_le, Word.toNat_shiftLeft_far, hi.toNat_scaled]
    exact Nat.mod_mod_of_dvd _ hdvd
  rw [shiftLeft, shift_integers ha hb, Integer.clipped, hbits]
  rfl

private theorem shiftRight_integers (hi : i.WellFormed) :
    a.shiftRight b = ofInteger (i.divided j.bits.toNat) := by
  have hlimit : i.bits.toNat % 2 ^ i.limit = i.bits.toNat := Nat.mod_eq_of_lt hi.bits_lt
  have hle : i.bits.toNat / 2 ^ j.bits.toNat ≤ i.bits.toNat := Nat.div_le_self _ _
  have hbits : Word.clip i.width
        (if 64 ≤ j.bits.toNat then 0 else i.bits.clip i.width >>> j.bits.toNat) =
      (i.divided j.bits.toNat).bits := by
    apply BitVec.eq_of_toNat_eq
    rw [Word.toNat_clip hi.width_le, Word.toNat_shiftRight_far, Word.toNat_clip hi.width_le]
    change i.bits.toNat % 2 ^ i.limit / 2 ^ j.bits.toNat % 2 ^ i.limit = _
    rw [hlimit, Nat.mod_eq_of_lt (hle.trans_lt hi.bits_lt), Integer.toNat_divided]
  rw [shiftRight, shift_integers ha hb, Integer.clipped, hbits]
  rfl

omit hb in
private theorem arithShiftRight_unsigned (hs : i.signed = false) :
    a.arithShiftRight b = a.shiftRight b := by
  have hsigned : a.isSigned = false := by simp only [isSigned, ha, hs]
  rw [arithShiftRight, hsigned, if_neg Bool.false_ne_true]

private theorem arithShiftRight_integers (hi : i.WellFormed) :
    a.arithShiftRight b = ofInteger (i.floored j.bits.toNat) := by
  cases hs : i.signed with
  | true =>
    have hwidth := hi.unsized hs
    have hsigned : a.isSigned = true := by simp only [isSigned, ha, hs]
    have hbits : i.word.sshiftRight (min j.bits.toNat 63) = (i.floored j.bits.toNat).bits := by
      rw [← BitVec.ofInt_toInt (x := i.word.sshiftRight _), Word.toInt_sshiftRight_min,
        ← Integer.toInt_signed hs]
      rfl
    rw [arithShiftRight, hsigned, if_pos rfl, shift_integers ha hb, hbits, Integer.clipped, hwidth]
    rw [Integer.floored, hwidth, hs]
    rfl
  | false =>
    rw [arithShiftRight_unsigned ha hs, shiftRight_integers ha hb hi,
      Integer.divided_eq_floored hs]

end Amounts

/-- An operator that acts on an integer by the amount alone, where amounts add up, does so as a
whole when it is used twice. -/
theorem shift_twice {f : Value → Value → Value} {act : Integer → Nat → Integer}
    (hf : ∀ {a b : Value} {i j : Integer}, a.datum = .integer i → b.datum = .integer j →
      i.WellFormed → f a b = ofInteger (act i j.bits.toNat))
    (hact : ∀ {i : Integer}, i.WellFormed → ∀ n, (act i n).WellFormed)
    (hadd : ∀ {i : Integer}, i.WellFormed → ∀ n m, act (act i n) m = act i (n + m))
    {a b c d : Value} {i j k s : Integer} (ha : a.datum = .integer i) (hi : i.WellFormed)
    (hb : b.datum = .integer j) (hc : c.datum = .integer k) (hd : d.datum = .integer s)
    (hsum : s.bits.toNat = j.bits.toNat + k.bits.toNat) : f (f a b) c = f a d := by
  rw [hf ha hb hi, hf rfl hc (hact hi _), hf ha hd hi, hadd hi, hsum]

/-- Shifts are multiplication and floor division by powers of two.  The amount is the bit pattern
of the right operand, so a negative one is at least `2 ^ 63`.  Sign and width stay, and amounts add
up. -/
theorem shifts_scale {a b : Value} {i j : Integer} (ha : a.datum = .integer i)
    (hb : b.datum = .integer j) (hi : i.WellFormed) (hj : j.WellFormed) :
    (j.toInt < 0 → 2 ^ 63 ≤ j.bits.toNat) ∧
    (∀ f ∈ [shiftLeft, arithShiftLeft], ∃ r : Integer, f a b = ofInteger r ∧
      r.signed = i.signed ∧ r.width = i.width ∧
      r.bits.toNat = i.bits.toNat * 2 ^ j.bits.toNat % 2 ^ i.limit) ∧
    (∃ r : Integer, a.shiftRight b = ofInteger r ∧ r.signed = i.signed ∧ r.width = i.width ∧
      r.bits.toNat = i.bits.toNat / 2 ^ j.bits.toNat) ∧
    (i.signed = false → a.arithShiftRight b = a.shiftRight b) ∧
    (i.signed = true → ∃ r : Integer, a.arithShiftRight b = ofInteger r ∧ r.signed = true ∧
      r.width = i.width ∧ r.toInt = i.toInt / 2 ^ j.bits.toNat) ∧
    ∀ f ∈ [shiftLeft, arithShiftLeft, shiftRight, arithShiftRight], ∀ (c d : Value)
      (k s : Integer), c.datum = .integer k → d.datum = .integer s →
      j.bits.toNat + k.bits.toNat < 2 ^ 64 → s.bits = j.bits + k.bits →
      f (f a b) c = f a d := by
  have hleft : ∃ r : Integer, a.shiftLeft b = ofInteger r ∧ r.signed = i.signed ∧
      r.width = i.width ∧ r.bits.toNat = i.bits.toNat * 2 ^ j.bits.toNat % 2 ^ i.limit :=
    ⟨_, shiftLeft_integers ha hb hi, rfl, rfl, hi.toNat_scaled _⟩
  refine ⟨hj.le_toNat_of_neg, ?_,
    ⟨_, shiftRight_integers ha hb hi, rfl, rfl, Integer.toNat_divided _ _⟩,
    arithShiftRight_unsigned ha, ?_, ?_⟩
  · intro f hf
    simp only [List.mem_cons, List.not_mem_nil, or_false] at hf
    rcases hf with rfl | rfl
    · exact hleft
    · exact hleft
  · intro hs
    exact ⟨_, arithShiftRight_integers ha hb hi, hs, rfl, hi.toInt_floored hs _⟩
  · intro f hf c d k s hc hd hlt hs
    have hsum : s.bits.toNat = j.bits.toNat + k.bits.toNat := by
      rw [hs, BitVec.toNat_add, Nat.mod_eq_of_lt hlt]
    simp only [List.mem_cons, List.not_mem_nil, or_false] at hf
    have htwice : (a.shiftLeft b).shiftLeft c = a.shiftLeft d :=
      shift_twice shiftLeft_integers (·.scaled) (·.scaled_scaled) ha hi hb hc hd hsum
    rcases hf with rfl | rfl | rfl | rfl
    · exact htwice
    · exact htwice
    · exact shift_twice shiftRight_integers (·.divided) (fun _ => Integer.divided_divided _) ha hi
        hb hc hd hsum
    · exact shift_twice arithShiftRight_integers (·.floored) (·.floored_floored) ha hi hb hc hd
        hsum

/-- A negative number to the right, twice, the second time by a negative amount, and eight bits to
the left. -/
theorem shifts_scale_corners :
    let minus : Integer := ⟨BitVec.ofInt 64 (-8), 0, true⟩
    let byte : Integer := ⟨0xFF, 8, false⟩
    (∃ r : Integer, (ofInteger minus).arithShiftRight (unsigned 2) = ofInteger r ∧
      r.signed = true ∧ r.width = 0 ∧ r.toInt = -8 / 2 ^ 2) ∧
    ((ofInteger minus).arithShiftRight (unsigned 2)).arithShiftRight (signed (-3)) =
      (ofInteger minus).arithShiftRight (unsigned (BitVec.ofNat 64 (2 ^ 64 - 1))) ∧
    ∃ r : Integer, (ofInteger byte).arithShiftLeft (unsigned 4) = ofInteger r ∧
      r.signed = false ∧ r.width = 8 ∧ r.bits.toNat = 0xFF * 2 ^ 4 % 2 ^ 8 := by
  intro minus byte
  have hminus : minus.WellFormed := Integer.wellFormed_of_unsized _ true
  have hbyte : byte.WellFormed := ⟨by decide, by decide, by simp [byte]⟩
  have hamount (w : Word) : (⟨w, 0, false⟩ : Integer).WellFormed :=
    Integer.wellFormed_of_unsized w false
  obtain ⟨-, -, -, -, hfloor, hsum⟩ :=
    shifts_scale (a := ofInteger minus) (b := unsigned 2) rfl rfl hminus (hamount 2)
  obtain ⟨-, hleft, -⟩ :=
    shifts_scale (a := ofInteger byte) (b := unsigned 4) rfl rfl hbyte (hamount 4)
  refine ⟨hfloor rfl, ?_, hleft arithShiftLeft (by simp)⟩
  exact hsum arithShiftRight (by simp) (signed (-3)) _ _ _ rfl rfl (by decide) (by decide)

end Value

end HdlExpr
