import Mathlib.Data.List.Induction
import HdlExpr.Proofs.Numeral.Parts

/-!
# Decimal numbers

Decimal digits are read into a word as long as their number stays below `2 ^ 63`.  Where the next
digit would take it there, the number takes an end of the signed range instead; so no operation on
the way leaves the range of words.
-/

namespace HdlExpr.Numeral

private theorem toNat_digit {c : Char} (hc : IsDigit 10 c) :
    (BitVec.ofNat 64 (digitValue c)).toNat = signValue c ∧ signValue c < 10 := by
  have hlt : digitValue c < 10 := (digitValue_lt_iff (by decide) c).mpr hc
  rw [hc.digitValue_eq] at hlt ⊢
  exact ⟨Nat.mod_eq_of_lt (by omega), hlt⟩

private theorem toNat_intMax : (BitVec.intMax 64).toNat = 2 ^ 63 - 1 := BitVec.toNat_intMax

/-- The guard divides what is left below the limit, but rounding does not matter. -/
theorem room_lt_iff (r : Word) {c : Char} (hc : IsDigit 10 c) :
    (BitVec.intMax 64 - BitVec.ofNat 64 (digitValue c)) / 10 < r ↔
      2 ^ 63 ≤ r.toNat * 10 + signValue c := by
  obtain ⟨hdigit, hlt⟩ := toNat_digit hc
  have hten : (10 : Word).toNat = 10 := rfl
  have hroom : (BitVec.intMax 64 - BitVec.ofNat 64 (digitValue c)).toNat =
      2 ^ 63 - 1 - signValue c := by
    rw [BitVec.toNat_sub_of_le, toNat_intMax, hdigit]
    rw [BitVec.le_def, toNat_intMax, hdigit]
    omega
  rw [BitVec.lt_def, BitVec.toNat_udiv, hroom, hten]
  omega

private theorem appendDigit?_eq (r : Word) {c : Char} (hc : IsDigit 10 c) :
    appendDigit? r c = if r.toNat * 10 + signValue c < 2 ^ 63
      then some (BitVec.ofNat 64 (r.toNat * 10 + signValue c)) else none := by
  have hguard := room_lt_iff r hc
  obtain ⟨hdigit, -⟩ := toNat_digit hc
  have hten : (10 : Word).toNat = 10 := rfl
  unfold appendDigit?
  by_cases h : r.toNat * 10 + signValue c < 2 ^ 63
  · have hnext : r * 10 + BitVec.ofNat 64 (digitValue c) =
        BitVec.ofNat 64 (r.toNat * 10 + signValue c) := by
      apply BitVec.eq_of_toNat_eq
      rw [BitVec.toNat_add, BitVec.toNat_mul, hdigit, hten, BitVec.toNat_ofNat]
      omega
    rw [if_neg (mt hguard.mp (by omega)), if_pos h, hnext]
  · rw [if_pos (hguard.mpr (by omega)), if_neg h]

@[simp] private theorem boundedNumber?_concat (digits : List Char) (c : Char) :
    boundedNumber? (digits ++ [c]) = (boundedNumber? digits).bind (appendDigit? · c) := by
  simp [boundedNumber?, List.foldlM_append]

private theorem boundedNumber?_eq {digits : List Char} (h : ∀ c ∈ digits, IsDigit 10 c) :
    boundedNumber? digits = if number 10 digits < 2 ^ 63
      then some (BitVec.ofNat 64 (number 10 digits)) else none := by
  induction digits using List.reverseRecOn with
  | nil => rfl
  | append_singleton digits c ih =>
    have hc : IsDigit 10 c := h c (by simp)
    rw [boundedNumber?_concat, ih fun d hd => h d (by simp [hd]), number_concat]
    by_cases hn : number 10 digits < 2 ^ 63
    · have hword : (BitVec.ofNat 64 (number 10 digits)).toNat = number 10 digits :=
        Nat.mod_eq_of_lt (by omega)
      rw [if_pos hn, Option.bind_some, appendDigit?_eq _ hc, hword]
    · -- Once the limit is exceeded, more digits do not lead back.
      rw [if_neg hn, if_neg (by omega), Option.bind_none]

private theorem toNat_of_boundedNumber? {digits : List Char} (h : ∀ c ∈ digits, IsDigit 10 c)
    {r : Word}
    (hr : boundedNumber? digits = some r) : r.toNat = number 10 digits ∧ r.toNat < 2 ^ 63 := by
  rw [boundedNumber?_eq h] at hr
  split at hr
  case isTrue hlt =>
    obtain rfl := Option.some.inj hr
    rw [BitVec.toNat_ofNat, Nat.mod_eq_of_lt (by omega)]
    exact ⟨rfl, hlt⟩
  case isFalse => cases hr

/-- What is computed to append a digit fits into words. -/
structure AppendsExactly (r : Word) (c : Char) : Prop where
  digit : '0'.toNat ≤ c.toNat
  room : (BitVec.intMax 64).usubOverflow (BitVec.ofNat 64 (digitValue c)) = false
  product : appendDigit? r c ≠ none → r.umulOverflow 10 = false
  sum : appendDigit? r c ≠ none → (r * 10).uaddOverflow (BitVec.ofNat 64 (digitValue c)) = false

private theorem appendsExactly (r : Word) {c : Char} (hc : IsDigit 10 c) : AppendsExactly r c := by
  obtain ⟨hdigit, hlt⟩ := toNat_digit hc
  have hten : (10 : Word).toNat = 10 := rfl
  have hfits (h : appendDigit? r c ≠ none) : r.toNat * 10 + signValue c < 2 ^ 63 := by
    by_contra hlarge
    rw [appendDigit?_eq r hc, if_neg hlarge] at h
    exact h rfl
  refine ⟨?_, ?_, ?_, ?_⟩
  · have hrange := (isDigit_iff c).mpr hc
    simp only [isDigit, Bool.and_eq_true, decide_eq_true_eq] at hrange
    exact hrange.1
  · simp only [BitVec.usubOverflow, toNat_intMax, hdigit, decide_eq_false_iff_not]
    omega
  · intro h
    have hbound := hfits h
    simp only [BitVec.umulOverflow, hten, decide_eq_false_iff_not]
    omega
  · intro h
    have hbound := hfits h
    simp only [BitVec.uaddOverflow, BitVec.toNat_mul, hten, hdigit, decide_eq_false_iff_not]
    omega

theorem Parts.Fits.takeWhile_isDigit {p : Parts} (hp : p.Fits 10) :
    p.afterSign.takeWhile isDigit = p.digits := by
  have hmark : p.afterSign = p.digits ++ p.rest := hp.dropMark_eq
  rw [hmark]
  apply takeWhile_append_of_stop
  · intro c hc
    exact (isDigit_iff c).mpr (hp.digits c hc)
  · intro c hc
    exact Bool.eq_false_iff.mpr fun h => hp.after_digits c hc ((isDigit_iff c).mp h)

private theorem toInt_ofNat_small {n : Nat} (h : n < 2 ^ 63) :
    (BitVec.ofNat 64 n).toInt = n ∧ (-BitVec.ofNat 64 n).toInt = -n := by
  simp only [BitVec.toInt_eq_toNat_cond, BitVec.toNat_neg, BitVec.toNat_ofNat]
  refine ⟨?_, ?_⟩ <;> split <;> omega

theorem Parts.Splits.decimal_eq {p : Parts} {text : String} (hp : p.Splits 10 text) :
    decimal text = max (-2 ^ 63) (min (2 ^ 63 - 1)
      (if p.sign = ['-'] then -(number 10 p.digits : Int) else number 10 p.digits)) := by
  obtain ⟨htext, hfits⟩ := hp
  have hleast : (BitVec.intMin 64).toInt = -2 ^ 63 := by decide
  have hgreatest : (BitVec.intMax 64).toInt = 2 ^ 63 - 1 := by decide
  simp only [decimal, ← htext, hfits.trimLeft_eq, hfits.splitSign_eq, hfits.takeWhile_isDigit,
    boundedNumber?_eq hfits.digits, decide_eq_true_eq]
  by_cases hn : number 10 p.digits < 2 ^ 63
  · obtain ⟨hplus, hminus⟩ := toInt_ofNat_small hn
    simp only [if_pos hn]
    split
    · rw [hminus]
      omega
    · rw [hplus]
      omega
  · -- The least number is exact for `2 ^ 63` itself.
    simp only [if_neg hn]
    split
    · rw [hleast]
      omega
    · rw [hgreatest]
      omega

/-- A decimal number is the one that its digits write, held between `-2 ^ 63` and `2 ^ 63 - 1`, both
of which are exact.  A text is cut in one way only.  After any number of digits the number so far is
right, and neither appending the next one nor changing the sign in the end overflows. -/
theorem decimal_clamps (text : String) :
    ∃ p : Parts, (∀ q : Parts, q.Splits 10 text ↔ q = p) ∧
      decimal text = max (-2 ^ 63) (min (2 ^ 63 - 1)
        (if p.sign = ['-'] then -(number 10 p.digits : Int) else number 10 p.digits)) ∧
      (p.sign = ['-'] → number 10 p.digits = 2 ^ 63 → decimal text = -2 ^ 63) ∧
      (∀ before c after r, p.digits = before ++ c :: after → boundedNumber? before = some r →
        r.toNat = number 10 before ∧ AppendsExactly r c) ∧
      ∀ r, boundedNumber? p.digits = some r →
        r.toInt = number 10 p.digits ∧ r.negOverflow = false := by
  have hbase : 10 ≤ 16 := by decide
  obtain ⟨p, hp⟩ := Parts.exists_splits hbase text
  have hsplits : p.Splits 10 text := (hp p).mpr rfl
  have hdigits := hsplits.2.digits
  have hvalue := hsplits.decimal_eq
  refine ⟨p, hp, hvalue, ?_, ?_, ?_⟩
  · intro hsign hnumber
    rw [hvalue, if_pos hsign, hnumber]
    decide
  · intro before c after r hcut hr
    have hbefore : ∀ d ∈ before, IsDigit 10 d := fun d hd => hdigits d (by simp [hcut, hd])
    have hc : IsDigit 10 c := hdigits c (by simp [hcut])
    exact ⟨(toNat_of_boundedNumber? hbefore hr).1, appendsExactly r hc⟩
  · intro r hr
    obtain ⟨hnumber, hlt⟩ := toNat_of_boundedNumber? hdigits hr
    have hint : r.toInt = number 10 p.digits := by
      rw [BitVec.toInt_eq_toNat_cond, if_pos (by omega), hnumber]
    refine ⟨hint, ?_⟩
    rw [BitVec.negOverflow, hint, beq_eq_false_iff_ne]
    omega

/-- The least number, which is also where the range ends. -/
theorem decimal_clamps_least : decimal " -9223372036854775808;" = -2 ^ 63 := by
  have hleast : Parts.Splits ⟨[' '], ['-'], [], "9223372036854775808".toList, [';']⟩ 10
      " -9223372036854775808;" := by
    refine ⟨by decide, ⟨?_, ?_, by simp, by simp, .inl rfl, by simp, ?_, ?_⟩⟩
    · simp [Text.isBlank]
    · simp [Parts.afterBlanks, Text.isBlank]
    · simp [IsDigit, digitSigns]
    · simp [IsDigit, digitSigns]
  obtain ⟨p, hp, -, hend, -⟩ := decimal_clamps " -9223372036854775808;"
  obtain rfl := (hp _).mp hleast
  exact hend rfl (by decide)

end HdlExpr.Numeral
