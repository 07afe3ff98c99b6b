import HdlExpr.Proofs.Value.Representation

/-!
# Slices

A slice of a slice is a slice, and two slices that meet hold everything between them.
-/

namespace HdlExpr

theorem Word.getLsbD_eq_false {w : Word} {count : Nat} (h : w.toNat < 2 ^ count) {k : Nat}
    (hk : count ≤ k) : w.getLsbD k = false := by
  rw [← BitVec.testBit_toNat]
  apply Nat.testBit_lt_two_pow
  exact h.trans_le (Nat.pow_le_pow_right (by decide) hk)

/-- A range has the same bits whether a larger range is cut out first or not. -/
theorem Word.clip_shiftRight_clip (w : Word) {outer low inner : Nat} (hpos : 0 < inner)
    (hinner : low + inner ≤ outer) (houter : outer ≤ 64) :
    Word.clip inner (w.clip outer >>> low) = Word.clip inner (w >>> low) := by
  apply BitVec.eq_of_getLsbD_eq
  intro k _
  rw [Word.getLsbD_clip _ (by omega) (by omega), Word.getLsbD_clip _ (by omega) (by omega),
    BitVec.getLsbD_ushiftRight, BitVec.getLsbD_ushiftRight,
    Word.getLsbD_clip _ (by omega) houter]
  by_cases hk : k < inner
  · have hlow : low + k < outer := by omega
    simp [hk, hlow]
  · simp [hk]

theorem Word.join_clip {w : Word} {count cut : Nat} (hw : w.toNat < 2 ^ count) (hpos : 0 < cut)
    (hcut : cut < count) (hcount : count ≤ 64) :
    Word.clip (count - cut) (w >>> cut) <<< cut ||| w.clip cut = w := by
  apply BitVec.eq_of_getLsbD_eq
  intro k hk
  rw [BitVec.getLsbD_or, BitVec.getLsbD_shiftLeft, Word.getLsbD_clip _ (by omega) (by omega),
    Word.getLsbD_clip _ (by omega) (by omega), BitVec.getLsbD_ushiftRight]
  by_cases hlow : k < cut
  · simp [hlow]
  · have hback : cut + (k - cut) = k := by omega
    by_cases hhigh : k < count
    · have hin : k - cut < count - cut := by omega
      simp [hk, hlow, hback, hin]
    · have hzero : w.getLsbD k = false := Word.getLsbD_eq_false hw (by omega)
      simp [hlow, hback, hzero]

namespace Value

/-- What a slice gives when all of its bits are there. -/
theorem slice_integer {v : Value} {i : Integer} (hv : v.datum = .integer i) (hi : i.WellFormed)
    {first second : Int} (hlow : 0 ≤ min first second) (hhigh : max first second < i.limit) :
    v.slice first second = ofInteger (Integer.clipped (i.bits >>> (min first second).toNat)
      (max first second - min first second + 1).toNat false) := by
  have hlimit := hi.limit_le
  simp only [slice, hv]
  rw [if_neg (by omega), sized, if_neg (by omega)]

section Slices

variable {v : Value} {i : Integer} (hv : v.datum = .integer i) (hi : i.WellFormed)

include hv hi

private theorem slice_positions {high low : Nat} (hle : low ≤ high) (hlt : high < i.limit) :
    v.slice high low =
      ofInteger (Integer.clipped (i.bits >>> low) (high - low + 1) false) := by
  have hwidth : ((high : Int) - low + 1).toNat = high - low + 1 := by omega
  have hmin : min (high : Int) low = low := by omega
  have hmax : max (high : Int) low = high := by omega
  rw [slice_integer hv hi (by omega) (by omega), hmin, hmax, hwidth, Int.toNat_natCast]

private theorem slice_slice {high low high' low' : Nat} (hle : low ≤ high) (hlt : high < i.limit)
    (hle' : low' ≤ high') (hlt' : high' ≤ high - low) :
    (v.slice high low).slice high' low' =
      v.slice ((low + high' : Nat) : Int) (low + low' : Nat) := by
  have hlimit := hi.limit_le
  have hcount : low + high' - (low + low') + 1 = high' - low' + 1 := by omega
  have hinner : (Integer.clipped (i.bits >>> low) (high - low + 1) false).WellFormed :=
    Integer.clipped_wellFormed (by omega) (by simp) _
  rw [slice_positions hv hi hle hlt, slice_positions rfl hinner hle' _,
    slice_positions hv hi (by omega) (by omega), hcount]
  · simp only [Integer.clipped]
    rw [Word.clip_shiftRight_clip _ (by omega) (by omega) (by omega), BitVec.shiftRight_add]
  · simp only [Integer.clipped, Integer.limit, Nat.succ_ne_zero, if_false]
    omega

private theorem slice_join (cut : Nat) (hpos : 0 < cut) (hcut : cut < i.limit) :
    ∃ high low : Integer, v.slice ((i.limit - 1 : Nat) : Int) cut = ofInteger high ∧
      v.slice ((cut - 1 : Nat) : Int) 0 = ofInteger low ∧
      i.bits = high.bits <<< cut ||| low.bits := by
  have hlow : v.slice ((cut - 1 : Nat) : Int) 0 =
      ofInteger (Integer.clipped (i.bits >>> 0) (cut - 1 - 0 + 1) false) :=
    slice_positions hv hi (Nat.zero_le _) (by omega)
  refine ⟨_, _, slice_positions hv hi (by omega) (by omega), hlow, ?_⟩
  have hhigh : i.limit - 1 - cut + 1 = i.limit - cut := by omega
  have hwidth : cut - 1 - 0 + 1 = cut := by omega
  simp only [Integer.clipped, hhigh, hwidth, BitVec.ushiftRight_zero]
  exact (Word.join_clip hi.bits_lt hpos hcut hi.limit_le).symm

end Slices

/-- Slicing composes and loses nothing.  Positions in a slice count from its lowest bit, and the
slices above and below a cut give all the bits back. -/
theorem slice_laws {v : Value} {i : Integer} (hv : v.datum = .integer i) (hi : i.WellFormed) :
    (∀ h l h' l' : Int, h < i.limit → l ≤ h → 0 ≤ l → h' ≤ h - l → l' ≤ h' → 0 ≤ l' →
      (v.slice h l).slice h' l' = v.slice (l + h') (l + l') ∧
      (v.slice (l + h') (l + l')).isValid = true) ∧
    ∀ k : Int, 0 < k → k < i.limit →
      ∃ high low : Integer, v.slice (i.limit - 1) k = ofInteger high ∧
        v.slice (k - 1) 0 = ofInteger low ∧ i.bits = high.bits <<< k.toNat ||| low.bits := by
  refine ⟨?_, ?_⟩
  · intro h l h' l' hh hl hl0 hh' hl' hl0'
    lift l to Nat using hl0
    lift l' to Nat using hl0'
    lift h to Nat using by omega
    lift h' to Nat using by omega
    have hslice : (v.slice h l).slice h' l' = v.slice ((l + h' : Nat) : Int) (l + l' : Nat) :=
      slice_slice hv hi (by omega) (by omega) (by omega) (by omega)
    push_cast at hslice
    refine ⟨hslice, ?_⟩
    rw [slice_integer hv hi (by omega) (by omega)]
    rfl
  · intro k hpos hcut
    lift k to Nat using hpos.le
    obtain ⟨high, low, hhigh, hlow, hbits⟩ := slice_join hv hi k (by omega) (by omega)
    rw [Int.ofNat_sub (by omega)] at hhigh hlow
    exact ⟨high, low, hhigh, hlow, hbits⟩

/-- The bits 7 to 4 of the bits 11 to 2 of a number of sixteen bits, and a signed number cut in
halves. -/
theorem slice_laws_nibbles :
    let word : Integer := ⟨0xBEEF, 16, false⟩
    let minus : Integer := ⟨BitVec.ofInt 64 (-5), 0, true⟩
    (((ofInteger word).slice 11 2).slice 7 4 = (ofInteger word).slice 9 6 ∧
      ((ofInteger word).slice 9 6).isValid = true) ∧
    ∃ high low : Integer, (ofInteger minus).slice 63 32 = ofInteger high ∧
      (ofInteger minus).slice 31 0 = ofInteger low ∧
      minus.bits = high.bits <<< 32 ||| low.bits := by
  intro word minus
  have hword : word.WellFormed := ⟨by decide, by decide, by simp [word]⟩
  have hminus : minus.WellFormed := Integer.wellFormed_of_unsized _ true
  exact ⟨(slice_laws rfl hword).1 11 2 7 4 (by decide) (by decide) (by decide) (by decide)
    (by decide) (by decide), (slice_laws rfl hminus).2 32 (by decide) (by decide)⟩

end Value

end HdlExpr
