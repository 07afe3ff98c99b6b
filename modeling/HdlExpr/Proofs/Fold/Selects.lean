import HdlExpr.Proofs.Fold.Visits
import HdlExpr.Proofs.Value.Arithmetic
import HdlExpr.Proofs.Value.Slices
import HdlExpr.Tree.Build

/-!
# Selects

A select takes some bits of an integer, which are counted from the lowest.  It gives a value exactly
when all these bits are there, and the bounds decide that as the numbers that they denote, although
they are added up in 64 bits, where sums wrap and large numbers without a sign turn negative.
-/

namespace HdlExpr

/-! ## Ranges of bits -/

/-- The `count` bits from position `low` on are bits of an integer. -/
def Integer.Fits (i : Integer) (low count : Int) : Prop :=
  1 ≤ count ∧ 0 ≤ low ∧ low + count - 1 < i.limit

namespace Value

def integer? (v : Value) : Option Integer :=
  match v.datum with
  | .integer i => some i
  | _ => none

private theorem integer?_eq_some_iff {v : Value} {i : Integer} :
    v.integer? = some i ↔ v.datum = .integer i := by
  cases h : v.datum <;> simp [integer?, h]

/-- A value is what an integer has in the `count` bits from position `low` on: none unless all of
them are there, and otherwise the unsigned integer of that width that consists of these bits. -/
def IsPart (v : Value) (i : Integer) (low count : Int) : Prop :=
  (v.isValid = true ↔ i.Fits low count) ∧
  (v.isValid = true → ∃ r : Integer, v = ofInteger r ∧ r.width = count ∧ r.signed = false ∧
    ∀ k, r.bits.getLsbD k = (decide (k < r.width) && i.bits.getLsbD (low.toNat + k)))

private theorem isPart_invalid {i : Integer} {low count : Int} (h : ¬i.Fits low count) :
    invalid.IsPart i low count := by
  refine ⟨?_, ?_⟩
  · simp [isValid, invalid, h]
  · intro hv
    cases hv

private theorem slice_of_fits {v : Value} {i : Integer} (hv : v.datum = .integer i)
    (hi : i.WellFormed)
    {low count : Int} (h : i.Fits low count) {first second : Int} (hmin : min first second = low)
    (hmax : max first second = low + count - 1) : (v.slice first second).IsPart i low count := by
  obtain ⟨hcount, hlow, hhigh⟩ := h
  have hlimit := hi.limit_le
  have hslice : v.slice first second =
      ofInteger (Integer.clipped (i.bits >>> low.toNat) count.toNat false) := by
    have hwidth : low + count - 1 - low + 1 = count := by omega
    rw [slice_integer hv hi (by omega) (by omega), hmin, hmax, hwidth]
  rw [hslice]
  refine ⟨?_, ?_⟩
  · simp [isValid, ofInteger, Integer.Fits, hcount, hlow, hhigh]
  · intro _
    refine ⟨_, rfl, ?_, rfl, ?_⟩
    · simp only [Integer.clipped]
      omega
    · intro k
      rw [Integer.clipped, Word.getLsbD_clip _ (by omega) (by omega), BitVec.getLsbD_ushiftRight]

/-- A slice is decided by the numbers that its bounds should be, as long as they are right for bits
that are there and out of range for others. -/
theorem slice_isPart {v : Value} {i : Integer} (hv : v.datum = .integer i) (hi : i.WellFormed)
    {low count first second : Int}
    (hin : i.Fits low count → min first second = low ∧ max first second = low + count - 1)
    (hout : ¬i.Fits low count → min first second < 0 ∨ (i.limit : Int) ≤ max first second) :
    (v.slice first second).IsPart i low count := by
  by_cases hfits : i.Fits low count
  · obtain ⟨hmin, hmax⟩ := hin hfits
    exact slice_of_fits hv hi hfits hmin hmax
  · have hslice : v.slice first second = invalid := by
      simp only [slice, hv, if_pos (hout hfits)]
    rw [hslice]
    exact isPart_invalid hfits

end Value

/-! ## Bounds -/

/-- A bound is read as a signed number, which only a number too large to be a position can change;
then it is negative. -/
theorem Integer.toInt_word (i : Integer) :
    i.word.toInt = i.toInt ∨ 2 ^ 63 ≤ i.toInt ∧ i.word.toInt < 0 := by
  cases h : i.signed with
  | true => exact .inl (toInt_signed h).symm
  | false =>
    have hnumber : i.toInt = i.bits.toNat := by simp [toInt, h]
    rw [word_unsigned h, hnumber, BitVec.toInt_eq_toNat_cond]
    have hlt := i.bits.isLt
    split <;> omega

theorem Word.toInt_last (base width : Word) (h : 1 ≤ width.toInt) :
    (base + width - 1).toInt = base.toInt + width.toInt - 1 ∨
      2 ^ 63 ≤ base.toInt + width.toInt - 1 ∧ (base + width - 1).toInt < 0 := by
  have hb := base.isLt
  have hw := width.isLt
  have hlast : (base + width - 1).toNat = (base.toNat + width.toNat + (2 ^ 64 - 1)) % 2 ^ 64 := by
    rw [BitVec.toNat_sub, BitVec.toNat_add, Nat.add_mod_mod, Nat.add_comm]
    rfl
  simp only [BitVec.toInt_eq_toNat_cond, hlast] at h ⊢
  split <;> split <;> split <;> omega

theorem Word.toInt_first (base width : Word) (h : 1 ≤ width.toInt) :
    base.toInt < 0 ∨ (base - width + 1).toInt = base.toInt - width.toInt + 1 := by
  have hb := base.isLt
  have hw := width.isLt
  have hfirst : (base - width + 1).toNat = (2 ^ 64 - width.toNat + base.toNat + 1) % 2 ^ 64 := by
    rw [BitVec.toNat_add, BitVec.toNat_sub, Nat.mod_add_mod]
    rfl
  simp only [BitVec.toInt_eq_toNat_cond, hfirst] at h ⊢
  split <;> split <;> omega

namespace Fold

open Run Value

section Selected

variable {v : Value} {i : Integer} (hv : v.datum = .integer i) (hi : i.WellFormed)

include hv hi

private theorem slice_between (first second : Integer) :
    (v.slice first.word.toInt second.word.toInt).IsPart i (min first.toInt second.toInt)
      (max first.toInt second.toInt - min first.toInt second.toInt + 1) := by
  have hlimit := hi.limit_le
  have hfirst := first.toInt_word
  have hsecond := second.toInt_word
  apply slice_isPart hv hi
  · intro hfits
    unfold Integer.Fits at hfits
    omega
  · intro hfits
    unfold Integer.Fits at hfits
    omega

private theorem indexedSlice_up {direction : Tag} (hd : direction.direction? = some .up)
    (base width : Integer) :
    (indexedSlice v direction base.word width.word).IsPart i base.toInt width.toInt := by
  have hlimit := hi.limit_le
  have hbase := base.toInt_word
  have hwidth := width.toInt_word
  unfold indexedSlice
  split
  case isTrue h =>
    apply isPart_invalid
    unfold Integer.Fits
    omega
  case isFalse h =>
    have hlast := Word.toInt_last base.word width.word (by omega)
    simp only [hd]
    apply slice_isPart hv hi
    · intro hfits
      unfold Integer.Fits at hfits
      omega
    · intro hfits
      unfold Integer.Fits at hfits
      omega

private theorem indexedSlice_down {direction : Tag} (hd : direction.direction? = some .down)
    (base width : Integer) :
    (indexedSlice v direction base.word width.word).IsPart i (base.toInt - width.toInt + 1)
      width.toInt := by
  have hlimit := hi.limit_le
  have hbase := base.toInt_word
  have hwidth := width.toInt_word
  unfold indexedSlice
  split
  case isTrue h =>
    apply isPart_invalid
    unfold Integer.Fits
    omega
  case isFalse h =>
    have hfirst := Word.toInt_first base.word width.word (by omega)
    simp only [hd]
    apply slice_isPart hv hi
    · intro hfits
      unfold Integer.Fits at hfits
      omega
    · intro hfits
      unfold Integer.Fits at hfits
      omega

end Selected

/-- A name with a select folds to what its bounds select of its value. -/
theorem fold_selected (c : Context) (budget : Nat) (n : NodeId) (s : State) {ident : Ident}
    {slot : Nat} (hname : (Form.decode c.tree n).shape = .name ident)
    (hslot : s.scope.lookup ident.name = some slot) (hselect : ident.select ≠ .none) :
    (fold c (budget + 1) n s).1.value = selected (s.scope.load slot) ident.select
      ((ident.select.bounds.mapM (fold c budget) s).1.map (·.value)) := by
  have hbinds : s.scope.binds ident.name = true := by simp [Scope.binds, hslot]
  rw [fold_succ]
  simp only [hname, operands, opened, hbinds, if_true, result, named, hslot]

/-- The integers that the bounds of a select fold to, one after the other. -/
def boundIntegers (c : Context) (budget : Nat) (select : Select) (s : State) :
    List (Option Integer) :=
  (select.bounds.mapM (fold c budget) s).1.map (·.value.integer?)

private theorem boundOf_of_integer {v : Value} {i : Integer} (h : v.integer? = some i) :
    boundOf v = some i.word := by
  simp [boundOf, integer?_eq_some_iff.mp h]

section Bounds

variable {v : Value} {select : Select} {xs : List Operand}

private theorem selected_bit {index : NodeId} (hs : select = .bit index) {i : Integer}
    (h : xs.map (·.value.integer?) = [some i]) :
    selected v select (xs.map (·.value)) = v.slice i.word.toInt i.word.toInt := by
  obtain ⟨x, rfl, hx⟩ := List.map_eq_singleton_iff.mp h
  simp [selected, hs, boundOf_of_integer hx]

private theorem operands_of_integers {i j : Integer}
    (h : xs.map (·.value.integer?) = [some i, some j]) :
    ∃ x y, xs = [x, y] ∧ boundOf x.value = some i.word ∧ boundOf y.value = some j.word := by
  have hlength : xs.length = 2 := by
    have hmap := congrArg List.length h
    simpa using hmap
  obtain ⟨x, y, rfl⟩ := List.length_eq_two.mp hlength
  simp only [List.map_cons, List.map_nil, List.cons.injEq, and_true] at h
  exact ⟨x, y, rfl, boundOf_of_integer h.1, boundOf_of_integer h.2⟩

private theorem selected_part {left right : NodeId} (hs : select = .part left right) {i j : Integer}
    (h : xs.map (·.value.integer?) = [some i, some j]) :
    selected v select (xs.map (·.value)) = v.slice i.word.toInt j.word.toInt := by
  obtain ⟨x, y, rfl, hx, hy⟩ := operands_of_integers h
  simp [selected, hs, hx, hy]

private theorem selected_indexed {base width : NodeId} {direction : Tag}
    (hs : select = .indexed base direction width) {i j : Integer}
    (h : xs.map (·.value.integer?) = [some i, some j]) :
    selected v select (xs.map (·.value)) = indexedSlice v direction i.word j.word := by
  obtain ⟨x, y, rfl, hx, hy⟩ := operands_of_integers h
  simp [selected, hs, hx, hy]

end Bounds

/-- Selects of an integer are exact, whatever integers their bounds fold to.  A single bit, the bits
between two positions in either order, and a number of bits up or down from a position are a value
exactly when all of these positions exist, counted without any wrapping, and then the value has
these bits and no others. -/
theorem selects_exact (c : Context) (budget : Nat) (n : NodeId) (s : State) {ident : Ident}
    {slot : Nat} {i : Integer} (hname : (Form.decode c.tree n).shape = .name ident)
    (hslot : s.scope.lookup ident.name = some slot)
    (hload : (s.scope.load slot).integer? = some i) (hi : i.WellFormed) :
    let v := (fold c (budget + 1) n s).1.value
    let bounds := boundIntegers c budget ident.select s
    (∀ index x, ident.select = .bit index → bounds = [some x] → v.IsPart i x.toInt 1) ∧
    (∀ left right x y, ident.select = .part left right → bounds = [some x, some y] →
      v.IsPart i (min x.toInt y.toInt) (max x.toInt y.toInt - min x.toInt y.toInt + 1)) ∧
    ∀ base direction width b w, ident.select = .indexed base direction width →
      bounds = [some b, some w] →
      (direction.direction? = some .up → v.IsPart i b.toInt w.toInt) ∧
      (direction.direction? = some .down → v.IsPart i (b.toInt - w.toInt + 1) w.toInt) := by
  intro v bounds
  have hv := integer?_eq_some_iff.mp hload
  have hfold (hselect : ident.select ≠ .none) : v = _ :=
    fold_selected c budget n s hname hslot hselect
  refine ⟨?_, ?_, ?_⟩
  · intro index x hselect hbounds
    rw [hfold (by simp [hselect]), selected_bit hselect hbounds]
    simpa using slice_between hv hi x x
  · intro left right x y hselect hbounds
    rw [hfold (by simp [hselect]), selected_part hselect hbounds]
    exact slice_between hv hi x y
  · intro base direction width b w hselect hbounds
    rw [hfold (by simp [hselect]), selected_indexed hselect hbounds]
    refine ⟨?_, ?_⟩
    · intro hup
      exact indexedSlice_up hv hi hup b w
    · intro hdown
      exact indexedSlice_down hv hi hdown b w

open Tree.Build in
/-- `v[x +: y]` -/
def window : NodeId × Tree :=
  (do indexedSelect "v" (← ident ["x"]) true (← ident ["y"]) : Tree.Build NodeId) ⟨"a.sv", #[]⟩

/-- Eight bits in `v`, and the bounds. -/
def windowScope (x y : Word) : Scope :=
  ((Scope.empty.enter.set "v" (.sized 0xA5 8)).set "x" (.unsigned x)).set "y" (.signed y)

/-- Three bits from position two on, and two bits from the greatest number without a sign on, of
which the sum of the bounds wraps to position zero. -/
theorem selects_exact_window :
    let eight : Integer := ⟨0xA5, 8, false⟩
    let value (x y : Word) :=
      (fold ⟨window.2, false, 10⟩ 10 window.1 { scope := windowScope x y }).1.value
    ((value 2 3).IsPart eight 2 3 ∧ (value 2 3).isValid = true) ∧
      (value (-1) 2).IsPart eight (2 ^ 64 - 1) 2 ∧ (value (-1) 2).isValid = false := by
  intro eight value
  have hname : (Form.decode window.2 window.1).shape =
      .name ⟨["v"], .indexed 3 .incPartSelectOp 6⟩ := by decide +kernel
  have hi : eight.WellFormed := ⟨by decide, by decide, by simp [eight]⟩
  have hslot (x y : Word) : (windowScope x y).lookup "v" = some 0 := by rfl
  have hpart (x y : Word) (b w : Integer) (hbounds : boundIntegers ⟨window.2, false, 10⟩ 9
      (.indexed 3 .incPartSelectOp 6) { scope := windowScope x y } = [some b, some w]) :
      (value x y).IsPart eight b.toInt w.toInt := by
    have hexact := selects_exact ⟨window.2, false, 10⟩ 9 window.1 { scope := windowScope x y } hname
      (hslot x y) (by rfl) hi
    exact (hexact.2.2 _ _ _ b w rfl hbounds).1 rfl
  exact ⟨⟨hpart 2 3 ⟨2, 0, false⟩ ⟨3, 0, true⟩ (by decide +kernel), by decide +kernel⟩,
    hpart (-1) 2 ⟨-1, 0, false⟩ ⟨2, 0, true⟩ (by decide +kernel), by decide +kernel⟩

end Fold

end HdlExpr
