import Mathlib.Data.Int.ModEq
import HdlExpr.Proofs.Value.Representation

/-!
# Integer arithmetic

Integers are computed on as words of 64 bits.  What comes out is what the numbers that the operands
denote would give, up to a multiple of `2 ^ 64`.  Only division looks at the signs: unless both
operands have one, their bit patterns are divided.
-/

namespace HdlExpr

/-! ## Words and numbers -/

private theorem modEq_of_ofInt_eq {m n : Int} (h : BitVec.ofInt 64 m = BitVec.ofInt 64 n) :
    m ≡ n [ZMOD 2 ^ 64] := by
  have hmod : m.bmod (2 ^ 64) = n.bmod (2 ^ 64) := by
    rw [← BitVec.toInt_ofInt, ← BitVec.toInt_ofInt, h]
  have hm : m.bmod (2 ^ 64) % 2 ^ 64 = m % 2 ^ 64 := Int.bmod_emod
  have hn : n.bmod (2 ^ 64) % 2 ^ 64 = n % 2 ^ 64 := Int.bmod_emod
  rw [Int.ModEq, ← hm, ← hn, hmod]

theorem Word.sdiv_eq_ofInt (x y : Word) : x.sdiv y = BitVec.ofInt 64 (x.toInt.tdiv y.toInt) := by
  apply BitVec.eq_of_toInt_eq
  rw [BitVec.toInt_sdiv, BitVec.toInt_ofInt]

theorem Word.srem_eq_ofInt (x y : Word) : x.srem y = BitVec.ofInt 64 (x.toInt.tmod y.toInt) := by
  rw [← BitVec.toInt_srem, BitVec.ofInt_toInt]

theorem Word.sdiv_mul_add_srem (x y : Word) : x.sdiv y * y + x.srem y = x := by
  calc x.sdiv y * y + x.srem y
      = BitVec.ofInt 64 (x.toInt.tdiv y.toInt) * BitVec.ofInt 64 y.toInt +
          BitVec.ofInt 64 (x.toInt.tmod y.toInt) := by
        rw [← Word.sdiv_eq_ofInt, ← Word.srem_eq_ofInt, BitVec.ofInt_toInt]
    _ = BitVec.ofInt 64 (x.toInt.tdiv y.toInt * y.toInt + x.toInt.tmod y.toInt) := by
        rw [BitVec.ofInt_add, BitVec.ofInt_mul]
    _ = x := by rw [Int.tdiv_mul_add_tmod, BitVec.ofInt_toInt]

theorem Word.udiv_mul_add_umod (x y : Word) : x / y * y + x % y = x := by
  apply BitVec.eq_of_toNat_eq
  rw [BitVec.toNat_add, BitVec.toNat_mul, BitVec.toNat_udiv, BitVec.toNat_umod, Nat.mod_add_mod,
    Nat.div_add_mod', Nat.mod_eq_of_lt x.isLt]

namespace Integer

@[simp] theorem word_unsized (w : Word) (signed : Bool) :
    (⟨w, 0, signed⟩ : Integer).word = w := by
  simp [word]

theorem word_unsigned {i : Integer} (h : i.signed = false) : i.word = i.bits := by
  simp [word, h]

theorem toInt_signed {i : Integer} (h : i.signed = true) : i.toInt = i.word.toInt := by
  simp [toInt, h]

/-- The word of an integer is the number that it denotes, cut to 64 bits. -/
@[simp] theorem ofInt_toInt (i : Integer) : BitVec.ofInt 64 i.toInt = i.word := by
  cases h : i.signed with
  | true => rw [toInt_signed h, BitVec.ofInt_toInt]
  | false =>
    have hnumber : i.toInt = i.bits.toNat := by simp [toInt, h]
    rw [hnumber, BitVec.ofInt_natCast, BitVec.ofNat_toNat, BitVec.setWidth_eq, word_unsigned h]

theorem word_eq_zero_iff (i : Integer) : i.word = 0 ↔ i.toInt = 0 := by
  constructor
  · intro hw
    cases h : i.signed with
    | true => simp [toInt_signed h, hw]
    | false =>
      rw [word_unsigned h] at hw
      simp [toInt, h, hw]
  · intro hn
    rw [← ofInt_toInt, hn]
    rfl

end Integer

namespace Value

/-- An integer without a width that denotes a number up to a multiple of `2 ^ 64`. -/
def Wraps (v : Value) (signed : Bool) (n : Int) : Prop :=
  ∃ i : Integer, v = ofInteger i ∧ i.width = 0 ∧ i.signed = signed ∧ i.toInt ≡ n [ZMOD 2 ^ 64]

private theorem wraps_of_ofInt {w : Word} {n : Int} (h : BitVec.ofInt 64 n = w) (signed : Bool) :
    (ofInteger ⟨w, 0, signed⟩).Wraps signed n := by
  refine ⟨_, rfl, rfl, rfl, ?_⟩
  apply modEq_of_ofInt_eq
  rw [Integer.ofInt_toInt, Integer.word_unsized, h]

/-! ## Operators on integers -/

private theorem isValid_unless (p : Prop) [Decidable p] (i : Integer) :
    (if p then invalid else ofInteger i).isValid = false ↔ p := by
  split
  case isTrue h => simp [isValid, invalid, h]
  case isFalse h => simp [isValid, ofInteger, h]

section Integers

variable {a b : Value} {i j : Integer} (ha : a.datum = .integer i) (hb : b.datum = .integer j)

include ha hb

theorem arithmetic_some {onWords : Word → Word → Bool → Option Word}
    {onReals : Float → Float → Option Float} {w : Word}
    (h : onWords i.word j.word (i.signed && j.signed) = some w) :
    arithmetic onWords onReals a b = ofInteger ⟨w, 0, i.signed && j.signed⟩ := by
  simp [arithmetic, operands, ha, hb, h]

theorem arithmetic_none {onWords : Word → Word → Bool → Option Word}
    {onReals : Float → Float → Option Float}
    (h : onWords i.word j.word (i.signed && j.signed) = none) :
    arithmetic onWords onReals a b = invalid := by
  simp [arithmetic, operands, ha, hb, h]

private theorem add_integers : a.add b = ofInteger ⟨i.word + j.word, 0, i.signed && j.signed⟩ :=
  arithmetic_some ha hb rfl

private theorem sub_integers : a.sub b = ofInteger ⟨i.word - j.word, 0, i.signed && j.signed⟩ :=
  arithmetic_some ha hb rfl

private theorem mul_integers : a.mul b = ofInteger ⟨i.word * j.word, 0, i.signed && j.signed⟩ :=
  arithmetic_some ha hb rfl

private theorem add_wraps : (a.add b).Wraps (i.signed && j.signed) (i.toInt + j.toInt) := by
  have hword : BitVec.ofInt 64 (i.toInt + j.toInt) = i.word + j.word := by
    rw [BitVec.ofInt_add, i.ofInt_toInt, j.ofInt_toInt]
  rw [add_integers ha hb]
  exact wraps_of_ofInt hword _

private theorem sub_wraps : (a.sub b).Wraps (i.signed && j.signed) (i.toInt - j.toInt) := by
  have hword : BitVec.ofInt 64 (i.toInt - j.toInt) = i.word - j.word := by
    rw [Int.sub_eq_add_neg, BitVec.ofInt_add, BitVec.ofInt_neg, i.ofInt_toInt, j.ofInt_toInt,
      BitVec.sub_eq_add_neg]
  rw [sub_integers ha hb]
  exact wraps_of_ofInt hword _

private theorem mul_wraps : (a.mul b).Wraps (i.signed && j.signed) (i.toInt * j.toInt) := by
  have hword : BitVec.ofInt 64 (i.toInt * j.toInt) = i.word * j.word := by
    rw [BitVec.ofInt_mul, i.ofInt_toInt, j.ofInt_toInt]
  rw [mul_integers ha hb]
  exact wraps_of_ofInt hword _

/-- Quotient and remainder come from words in the same way. -/
theorem division_integers (signedOp unsignedOp : Word → Word → Word)
    (onReals : Float → Float → Option Float) :
    arithmetic (fun x y signed =>
        if y = 0 then none else some (if signed then signedOp x y else unsignedOp x y))
        onReals a b =
      if j.toInt = 0 then invalid
      else ofInteger ⟨if i.signed && j.signed then signedOp i.word j.word
        else unsignedOp i.word j.word, 0, i.signed && j.signed⟩ := by
  by_cases h : j.toInt = 0
  · have hw : j.word = 0 := j.word_eq_zero_iff.mpr h
    rw [if_pos h]
    apply arithmetic_none ha hb
    simp [hw]
  · have hw : j.word ≠ 0 := fun hw => h (j.word_eq_zero_iff.mp hw)
    rw [if_neg h]
    apply arithmetic_some ha hb
    exact if_neg hw

private theorem div_integers :
    a.div b = if j.toInt = 0 then invalid
      else ofInteger ⟨if i.signed && j.signed then i.word.sdiv j.word else i.word / j.word, 0,
        i.signed && j.signed⟩ :=
  division_integers ha hb BitVec.sdiv (· / ·) _

private theorem mod_integers :
    a.mod b = if j.toInt = 0 then invalid
      else ofInteger ⟨if i.signed && j.signed then i.word.srem j.word else i.word % j.word, 0,
        i.signed && j.signed⟩ :=
  division_integers ha hb BitVec.srem (· % ·) _

private theorem div_isValid : (a.div b).isValid = false ↔ j.toInt = 0 := by
  rw [div_integers ha hb]
  exact isValid_unless _ _

private theorem mod_isValid : (a.mod b).isValid = false ↔ j.toInt = 0 := by
  rw [mod_integers ha hb]
  exact isValid_unless _ _

/-- Quotient times divisor plus remainder has the bits of the dividend, whatever the signs. -/
theorem div_mul_add_mod (h : j.toInt ≠ 0) :
    ((a.div b).mul b).add (a.mod b) = ofInteger ⟨i.word, 0, i.signed && j.signed⟩ := by
  rw [div_integers ha hb, mod_integers ha hb, if_neg h, if_neg h, mul_integers rfl hb,
    add_integers rfl rfl]
  simp only [Integer.word_unsized]
  cases hs : i.signed && j.signed with
  | true =>
    have hj : j.signed = true := (Bool.and_eq_true_iff.mp hs).2
    simp [hj, Word.sdiv_mul_add_srem]
  | false => simp [Word.udiv_mul_add_umod]

private theorem div_signed (hi : i.signed = true) (hj : j.signed = true) (h : j.toInt ≠ 0) :
    a.div b = Value.signed (BitVec.ofInt 64 (i.toInt.tdiv j.toInt)) := by
  rw [div_integers ha hb, if_neg h, Integer.toInt_signed hi, Integer.toInt_signed hj,
    ← Word.sdiv_eq_ofInt, hi, hj]
  rfl

private theorem mod_signed (hi : i.signed = true) (hj : j.signed = true) (h : j.toInt ≠ 0) :
    a.mod b = Value.signed (BitVec.ofInt 64 (i.toInt.tmod j.toInt)) := by
  rw [mod_integers ha hb, if_neg h, Integer.toInt_signed hi, Integer.toInt_signed hj,
    ← Word.srem_eq_ofInt, hi, hj]
  rfl

private theorem div_unsigned (hs : (i.signed && j.signed) = false) (h : j.toInt ≠ 0) :
    a.div b = unsigned (BitVec.ofNat 64 (i.word.toNat / j.word.toNat)) := by
  rw [div_integers ha hb, if_neg h, hs, ← BitVec.toNat_udiv, BitVec.ofNat_toNat,
    BitVec.setWidth_eq]
  rfl

private theorem mod_unsigned (hs : (i.signed && j.signed) = false) (h : j.toInt ≠ 0) :
    a.mod b = unsigned (BitVec.ofNat 64 (i.word.toNat % j.word.toNat)) := by
  rw [mod_integers ha hb, if_neg h, hs, ← BitVec.toNat_umod, BitVec.ofNat_toNat,
    BitVec.setWidth_eq]
  rfl

end Integers

/-- A remainder fits where its operands do, so nothing of it is cut off. -/
theorem toInt_remainder {i j : Integer} (hi : i.signed = true) (hj : j.signed = true) :
    (⟨BitVec.ofInt 64 (i.toInt.tmod j.toInt), 0, true⟩ : Integer).toInt = i.toInt.tmod j.toInt := by
  rw [Integer.toInt_signed rfl, Integer.word_unsized, Integer.toInt_signed hi,
    Integer.toInt_signed hj, ← BitVec.toInt_srem, BitVec.ofInt_toInt]

private theorem natAbs_tmod_lt (m : Int) {n : Int} (h : n ≠ 0) : (m.tmod n).natAbs < n.natAbs := by
  rw [Int.natAbs_tmod]
  exact Nat.mod_lt _ (Int.natAbs_pos.mpr h)

private theorem sign_tmod_eq (m n : Int) : m.tmod n = 0 ∨ (m.tmod n).sign = m.sign := by
  have hsign := Int.sign_tmod m n
  split at hsign
  · exact .inl (Int.sign_eq_zero_iff_zero.mp hsign)
  · exact .inr hsign

/-- Arithmetic on integers is exact up to multiples of `2 ^ 64`.  Sums, differences and products
are; division fails only by zero.  Two signed numbers are divided toward zero, where the one
quotient that does not fit wraps, and the remainder is smaller than the divisor and has the sign of
the dividend; all others are divided as bit patterns.  Either way quotient and remainder give the
dividend back. -/
theorem arithmetic_modulo {a b : Value} {i j : Integer} (ha : a.datum = .integer i)
    (hb : b.datum = .integer j) (hi : i.WellFormed) (hj : j.WellFormed) :
    (a.add b).Wraps (i.signed && j.signed) (i.toInt + j.toInt) ∧
    (a.sub b).Wraps (i.signed && j.signed) (i.toInt - j.toInt) ∧
    (a.mul b).Wraps (i.signed && j.signed) (i.toInt * j.toInt) ∧
    ((a.div b).isValid = false ↔ j.toInt = 0) ∧
    ((a.mod b).isValid = false ↔ j.toInt = 0) ∧
    (j.toInt ≠ 0 →
      ((i.signed && j.signed) = true →
        (a.div b).Wraps true (i.toInt.tdiv j.toInt) ∧
        (∃ r : Integer, a.mod b = ofInteger r ∧ r.width = 0 ∧ r.signed = true ∧
          r.toInt.natAbs < j.toInt.natAbs ∧ (r.toInt = 0 ∨ r.toInt.sign = i.toInt.sign)) ∧
        (i.toInt = -2 ^ 63 → j.toInt = -1 → a.div b = ofInteger i ∧ a.mod b = Value.signed 0)) ∧
      ((i.signed && j.signed) = false →
        a.div b = unsigned (BitVec.ofNat 64 (i.bits.toNat / j.bits.toNat)) ∧
        a.mod b = unsigned (BitVec.ofNat 64 (i.bits.toNat % j.bits.toNat))) ∧
      ∃ k : Integer, ((a.div b).mul b).add (a.mod b) = ofInteger k ∧ k.bits = i.bits) := by
  refine ⟨add_wraps ha hb, sub_wraps ha hb, mul_wraps ha hb, div_isValid ha hb, mod_isValid ha hb,
    ?_⟩
  intro hzero
  refine ⟨?_, ?_, ⟨_, div_mul_add_mod ha hb hzero, hi.word_eq⟩⟩
  · intro hs
    obtain ⟨si, sj⟩ := Bool.and_eq_true_iff.mp hs
    have hdiv := div_signed ha hb si sj hzero
    have hmod := mod_signed ha hb si sj hzero
    have hr := toInt_remainder si sj
    refine ⟨hdiv ▸ wraps_of_ofInt rfl true, ⟨_, hmod, rfl, rfl, ?_, ?_⟩, ?_⟩
    · rw [hr]
      exact natAbs_tmod_lt i.toInt hzero
    · rw [hr]
      exact sign_tmod_eq i.toInt j.toInt
    · intro hleast hminus
      have hbits : i.bits = BitVec.ofInt 64 (-2 ^ 63) := by
        rw [← hi.word_eq, ← i.ofInt_toInt, hleast]
      have hself : ofInteger i = Value.signed (BitVec.ofInt 64 (-2 ^ 63)) := by
        rw [Value.signed, ← hbits, ← hi.unsized si, ← si]
      rw [hdiv, hmod, hself, hleast, hminus]
      exact ⟨congrArg Value.signed (by decide), congrArg Value.signed (by decide)⟩
  · intro hs
    have hdiv := div_unsigned ha hb hs hzero
    have hmod := mod_unsigned ha hb hs hzero
    rw [hi.word_eq, hj.word_eq] at hdiv hmod
    exact ⟨hdiv, hmod⟩

/-- The least number by minus one, and a negative number by one of eight bits, which makes it a
large one. -/
theorem arithmetic_modulo_corners :
    let least : Integer := ⟨BitVec.ofInt 64 (-2 ^ 63), 0, true⟩
    let minus : Integer := ⟨BitVec.ofInt 64 (-1), 0, true⟩
    let seven : Integer := ⟨BitVec.ofInt 64 (-7), 0, true⟩
    let two : Integer := ⟨2, 8, false⟩
    (ofInteger least).div (ofInteger minus) = ofInteger least ∧
    (ofInteger least).mod (ofInteger minus) = Value.signed 0 ∧
    (ofInteger seven).div (ofInteger two) = unsigned (BitVec.ofNat 64 ((2 ^ 64 - 7) / 2)) ∧
    ∃ k : Integer, (((ofInteger seven).div (ofInteger two)).mul (ofInteger two)).add
      ((ofInteger seven).mod (ofInteger two)) = ofInteger k ∧ k.bits = seven.bits := by
  intro least minus seven two
  have htwo : two.WellFormed := ⟨by decide, by decide, by simp [two]⟩
  have hleast := arithmetic_modulo (a := ofInteger least) (b := ofInteger minus) rfl rfl
    (Integer.wellFormed_of_unsized _ true) (Integer.wellFormed_of_unsized _ true)
  have hseven := arithmetic_modulo (a := ofInteger seven) (b := ofInteger two) rfl rfl
    (Integer.wellFormed_of_unsized _ true) htwo
  obtain ⟨hdiv, hmod⟩ := (hleast.2.2.2.2.2 (by decide)).1 rfl |>.2.2 (by decide) (by decide)
  obtain ⟨-, hpattern, hback⟩ := hseven.2.2.2.2.2 (by decide)
  exact ⟨hdiv, hmod, (hpattern rfl).1, hback⟩

end Value

end HdlExpr
