import Mathlib.Data.String.Basic
import HdlExpr.Proofs.Value.Arithmetic

/-!
# Comparison

Two signed integers are compared as the numbers that they denote, all other integers as bit
patterns, and strings by their characters.  Each of these is an order of its own, and the first two
do not fit together: minus one is less than one as a number and greater as a bit pattern.
-/

namespace HdlExpr.Value

def relations : List (Value → Value → Value) :=
  [less, equal, greater, notEqual, lessEqual, greaterEqual]

def integers : Set Value := {v | v.WellFormed ∧ v.kind = .integer}

def signedIntegers : Set Value := {v | v ∈ integers ∧ v.isSigned = true}

def unsignedIntegers : Set Value := {v | v ∈ integers ∧ v.isSigned = false}

def strings : Set Value := {v | v.kind = .text}

private theorem exists_integer {v : Value} (h : v ∈ integers) :
    ∃ i, v.datum = .integer i ∧ i.WellFormed := by
  obtain ⟨hwell, hkind⟩ := h
  obtain ⟨i, hi⟩ := kind_eq_integer_iff.mp hkind
  exact ⟨i, hi, hwell i hi⟩

private theorem exists_text {v : Value} (h : v ∈ strings) : ∃ s, v.datum = .text s :=
  kind_eq_text_iff.mp h

/-! ## Outcomes -/

private theorem ofBool_eq_iff (p q : Bool) : ofBool p = ofBool q ↔ p = q := by
  cases p <;> cases q <;> simp [ofBool, unsigned, ofInteger]

private theorem not_ofBool (p : Bool) : (ofBool p).not = ofBool (!p) := by
  cases p <;> rfl

section Outcome

variable {a b : Value} {o : Ordering}

private theorem relation_of_outcome (h : compare? a b = some o) (holds : Ordering → Bool) :
    relation holds a b = ofBool (holds o) := by
  simp [relation, h]

private theorem relation_of_none (h : compare? a b = none) (holds : Ordering → Bool) :
    relation holds a b = invalid := by
  simp [relation, h]

private theorem less_iff (h : compare? a b = some o) : a.less b = unsigned 1 ↔ o = .lt := by
  rw [less, relation_of_outcome h]
  exact (ofBool_eq_iff _ true).trans beq_iff_eq

private theorem equal_iff (h : compare? a b = some o) : a.equal b = unsigned 1 ↔ o = .eq := by
  rw [equal, relation_of_outcome h]
  exact (ofBool_eq_iff _ true).trans beq_iff_eq

private theorem relation_of_iff (h : compare? a b = some o) {expected : Ordering} {p : Prop}
    [Decidable p] (hp : o = expected ↔ p) : relation (· == expected) a b = ofBool p := by
  rw [relation_of_outcome h, ofBool_eq_iff, Bool.eq_iff_iff, decide_eq_true_eq]
  exact beq_iff_eq.trans hp

private theorem outcome_decides (h : compare? a b = some o) :
    [a.less b, a.equal b, a.greater b] ∈ [[unsigned 1, unsigned 0, unsigned 0],
      [unsigned 0, unsigned 1, unsigned 0], [unsigned 0, unsigned 0, unsigned 1]] := by
  have hall (holds : Ordering → Bool) := relation_of_outcome h holds
  simp only [less, equal, greater, hall]
  cases o with
  | lt => exact List.mem_cons_self
  | eq => exact List.mem_cons_of_mem _ List.mem_cons_self
  | gt => exact List.mem_cons_of_mem _ (List.mem_cons_of_mem _ List.mem_cons_self)

private theorem relation_not (holds : Ordering → Bool) :
    relation (fun o => !holds o) a b = (relation holds a b).not := by
  cases h : compare? a b with
  | none =>
    rw [relation_of_none h, relation_of_none h]
    rfl
  | some o => rw [relation_of_outcome h, relation_of_outcome h, not_ofBool]

end Outcome

/-! ## Orders -/

section Operands

variable {a b : Value} {i j : Integer}

private theorem compare?_integers (ha : a.datum = .integer i) (hb : b.datum = .integer j) :
    compare? a b = some (if i.signed && j.signed then compare i.word.toInt j.word.toInt
      else compare i.word.toNat j.word.toNat) := by
  simp [compare?, operands, ha, hb]

private theorem compare?_texts {s t : String} (ha : a.datum = .text s) (hb : b.datum = .text t) :
    compare? a b = some (compare s t) := by
  simp [compare?, operands, ha, hb]

private theorem compare?_mixed (h : Xor (a ∈ strings) (b ∈ strings)) : compare? a b = none := by
  rcases h with ⟨ha, hb⟩ | ⟨hb, ha⟩
  · obtain ⟨s, hs⟩ := exists_text ha
    cases hd : b.datum with
    | text t => simp [strings, kind, hd] at hb
    | invalid | integer | real => simp [compare?, operands, hs, hd]
  · obtain ⟨s, hs⟩ := exists_text hb
    cases hd : a.datum with
    | text t => simp [strings, kind, hd] at ha
    | invalid | integer | real => simp [compare?, operands, hs, hd]

/-- Integers compare as equal exactly when they have the same word, with a sign or without. -/
theorem equal_integers_iff (ha : a.datum = .integer i) (hb : b.datum = .integer j) :
    a.equal b = unsigned 1 ↔ i.word = j.word := by
  rw [equal_iff (compare?_integers ha hb)]
  split
  · rw [Int.compare_eq_eq, BitVec.toInt_inj]
  · rw [Nat.compare_eq_eq, BitVec.toNat_inj]

private theorem not_xor_cases (ha : a ∈ integers ∪ strings) (hb : b ∈ integers ∪ strings)
    (h : ¬Xor (a ∈ strings) (b ∈ strings)) :
    a ∈ integers ∧ b ∈ integers ∨ a ∈ strings ∧ b ∈ strings := by
  rw [xor_iff_not_iff, not_not] at h
  rcases ha with ha | ha
  · rcases hb with hb | hb
    · exact .inl ⟨ha, hb⟩
    · exact .inr ⟨h.mpr hb, hb⟩
  · exact .inr ⟨ha, h.mp ha⟩

private theorem exists_outcome (ha : a ∈ integers ∪ strings) (hb : b ∈ integers ∪ strings)
    (h : ¬Xor (a ∈ strings) (b ∈ strings)) :
    ∃ o, compare? a b = some o ∧ compare? b a = some o.swap := by
  rcases not_xor_cases ha hb h with ⟨ha, hb⟩ | ⟨ha, hb⟩
  · obtain ⟨i, hi, -⟩ := exists_integer ha
    obtain ⟨j, hj, -⟩ := exists_integer hb
    refine ⟨_, compare?_integers hi hj, ?_⟩
    rw [compare?_integers hj hi, Bool.and_comm]
    split
    · rw [Std.OrientedOrd.eq_swap]
    · rw [Std.OrientedOrd.eq_swap]
  · obtain ⟨s, hs⟩ := exists_text ha
    obtain ⟨t, ht⟩ := exists_text hb
    refine ⟨_, compare?_texts hs ht, ?_⟩
    rw [compare?_texts ht hs, Std.OrientedOrd.eq_swap]

end Operands

/-- Among some values, being less is a strict order, and only equal values tie. -/
structure StrictlyOrdered (S : Set Value) : Prop where
  irrefl : ∀ a ∈ S, a.less a ≠ unsigned 1
  trans : ∀ a ∈ S, ∀ b ∈ S, ∀ c ∈ S, a.less b = unsigned 1 → b.less c = unsigned 1 →
    a.less c = unsigned 1
  ties : ∀ a ∈ S, ∀ b ∈ S,
    a.less b ≠ unsigned 1 ∧ b.less a ≠ unsigned 1 ↔ a.equal b = unsigned 1

/-- Values that compare as their keys do inherit the order of the keys. -/
theorem strictlyOrdered_of_key {κ : Type} [Ord κ] [Std.TransOrd κ] {S : Set Value}
    (key : Value → κ)
    (h : ∀ a ∈ S, ∀ b ∈ S, compare? a b = some (compare (key a) (key b))) : StrictlyOrdered S where
  irrefl a ha := by
    rw [Ne, less_iff (h a ha a ha), Std.compare_self]
    decide
  trans a ha b hb c hc := by
    rw [less_iff (h a ha b hb), less_iff (h b hb c hc), less_iff (h a ha c hc)]
    exact Std.TransCmp.lt_trans
  ties a ha b hb := by
    rw [Ne, Ne, less_iff (h a ha b hb), less_iff (h b hb a ha), equal_iff (h a ha b hb),
      Std.OrientedOrd.eq_swap (a := key b)]
    cases compare (key a) (key b) <;> simp

private theorem signedIntegers_ordered : StrictlyOrdered signedIntegers := by
  apply strictlyOrdered_of_key toInt64
  rintro a ⟨ha, hsa⟩ b ⟨hb, hsb⟩
  obtain ⟨i, hi, -⟩ := exists_integer ha
  obtain ⟨j, hj, -⟩ := exists_integer hb
  simp only [isSigned, hi, hj] at hsa hsb
  rw [compare?_integers hi hj]
  simp [hsa, hsb, toInt64, hi, hj]

private theorem unsignedIntegers_ordered : StrictlyOrdered unsignedIntegers := by
  apply strictlyOrdered_of_key fun v => v.toWord.toNat
  rintro a ⟨ha, hsa⟩ b ⟨hb, hsb⟩
  obtain ⟨i, hi, -⟩ := exists_integer ha
  obtain ⟨j, hj, -⟩ := exists_integer hb
  simp only [isSigned, hi, hj] at hsa hsb
  rw [compare?_integers hi hj]
  simp [hsa, toWord, hi, hj, Integer.word_unsigned hsa, Integer.word_unsigned hsb]

private theorem strings_ordered : StrictlyOrdered strings := by
  apply strictlyOrdered_of_key content
  intro a ha b hb
  obtain ⟨s, hs⟩ := exists_text ha
  obtain ⟨t, ht⟩ := exists_text hb
  rw [compare?_texts hs ht]
  simp [content, hs, ht]

private theorem equal_equivalence :
    Equivalence fun a b : integers => a.1.equal b.1 = unsigned 1 where
  refl a := by
    obtain ⟨i, hi, -⟩ := exists_integer a.2
    exact (equal_integers_iff hi hi).mpr rfl
  symm {a b} := by
    obtain ⟨i, hi, -⟩ := exists_integer a.2
    obtain ⟨j, hj, -⟩ := exists_integer b.2
    rw [equal_integers_iff hi hj, equal_integers_iff hj hi]
    exact Eq.symm
  trans {a b c} := by
    obtain ⟨i, hi, -⟩ := exists_integer a.2
    obtain ⟨j, hj, -⟩ := exists_integer b.2
    obtain ⟨k, hk, -⟩ := exists_integer c.2
    rw [equal_integers_iff hi hj, equal_integers_iff hj hk, equal_integers_iff hi hk]
    exact Eq.trans

section Integers

variable {a b : Value} {i j : Integer} (ha : a.datum = .integer i) (hb : b.datum = .integer j)

include ha hb

private theorem compare_signed (hi : i.signed = true) (hj : j.signed = true) :
    a.less b = ofBool (i.toInt < j.toInt) ∧ a.equal b = ofBool (i.toInt = j.toInt) := by
  have hcompare := compare?_integers ha hb
  rw [hi, hj, Bool.and_self, if_pos rfl, ← Integer.toInt_signed hi, ← Integer.toInt_signed hj]
    at hcompare
  exact ⟨relation_of_iff hcompare Int.compare_eq_lt, relation_of_iff hcompare Int.compare_eq_eq⟩

private theorem compare_patterns (hi : i.WellFormed) (hj : j.WellFormed)
    (hs : (i.signed && j.signed) = false) :
    a.less b = ofBool (i.bits.toNat < j.bits.toNat) ∧
      a.equal b = ofBool (i.bits.toNat = j.bits.toNat) := by
  have hcompare := compare?_integers ha hb
  rw [hs, if_neg Bool.false_ne_true, hi.word_eq, hj.word_eq] at hcompare
  exact ⟨relation_of_iff hcompare Nat.compare_eq_lt, relation_of_iff hcompare Nat.compare_eq_eq⟩

end Integers

private theorem compare_strings {a b : Value} {s t : String} (ha : a.datum = .text s)
    (hb : b.datum = .text t) : a.less b = ofBool (s < t) ∧ a.equal b = ofBool (s = t) := by
  have hcompare := compare?_texts ha hb
  exact ⟨relation_of_iff hcompare compare_lt_iff_lt, relation_of_iff hcompare compare_eq_iff_eq⟩

private theorem relations_invalid_iff {a b : Value} (ha : a ∈ integers ∪ strings)
    (hb : b ∈ integers ∪ strings) :
    (∀ r ∈ relations, r a b = invalid) ↔ Xor (a ∈ strings) (b ∈ strings) := by
  constructor
  · intro h
    by_contra hx
    obtain ⟨o, ho, -⟩ := exists_outcome ha hb hx
    have hless := h less (by simp [relations])
    rw [less, relation_of_outcome ho] at hless
    cases congrArg kind hless
  · intro h r hr
    have hnone (holds : Ordering → Bool) := relation_of_none (compare?_mixed h) holds
    simp only [relations, List.mem_cons, List.not_mem_nil, or_false] at hr
    rcases hr with rfl | rfl | rfl | rfl | rfl | rfl <;> exact hnone _

private theorem less_eq_greater {a b : Value} (ha : a ∈ integers ∪ strings)
    (hb : b ∈ integers ∪ strings) : a.less b = b.greater a := by
  by_cases hx : Xor (a ∈ strings) (b ∈ strings)
  · rw [less, greater, relation_of_none (compare?_mixed hx),
      relation_of_none (compare?_mixed ((xor_comm _ _).mp hx))]
  · obtain ⟨o, ho, hswap⟩ := exists_outcome ha hb hx
    rw [less, greater, relation_of_outcome ho, relation_of_outcome hswap]
    cases o <;> rfl

/-- The relations agree with each other.  They are all invalid for a string and an integer, and
otherwise exactly one of less, equal and greater holds, the other three being negations of these.
Two signed integers are ordered as numbers, all others as bit patterns, and strings by their
characters; so equality is an equivalence on all integers, while less is a strict order only among
those with a sign, among those without and among strings. -/
theorem comparison_coherent :
    (∀ a ∈ integers ∪ strings, ∀ b ∈ integers ∪ strings,
      ((∀ r ∈ relations, r a b = invalid) ↔ Xor (a ∈ strings) (b ∈ strings)) ∧
      (¬Xor (a ∈ strings) (b ∈ strings) →
        [a.less b, a.equal b, a.greater b] ∈ [[unsigned 1, unsigned 0, unsigned 0],
          [unsigned 0, unsigned 1, unsigned 0], [unsigned 0, unsigned 0, unsigned 1]]) ∧
      a.notEqual b = (a.equal b).not ∧ a.lessEqual b = (a.greater b).not ∧
      a.greaterEqual b = (a.less b).not ∧ a.less b = b.greater a) ∧
    (∀ (a b : Value) (i j : Integer), a.datum = .integer i → b.datum = .integer j →
      i.WellFormed → j.WellFormed →
      (i.signed = true ∧ j.signed = true →
        a.less b = ofBool (i.toInt < j.toInt) ∧ a.equal b = ofBool (i.toInt = j.toInt)) ∧
      (¬(i.signed = true ∧ j.signed = true) →
        a.less b = ofBool (i.bits.toNat < j.bits.toNat) ∧
          a.equal b = ofBool (i.bits.toNat = j.bits.toNat))) ∧
    (∀ (a b : Value) (s t : String), a.datum = .text s → b.datum = .text t →
      a.less b = ofBool (s < t) ∧ a.equal b = ofBool (s = t)) ∧
    Equivalence (fun a b : integers => a.1.equal b.1 = unsigned 1) ∧
    ∀ S ∈ [signedIntegers, unsignedIntegers, strings], StrictlyOrdered S := by
  refine ⟨?_, ?_, fun a b s t => compare_strings, equal_equivalence, ?_⟩
  · intro a ha b hb
    refine ⟨relations_invalid_iff ha hb, ?_, relation_not _, relation_not _, relation_not _,
      less_eq_greater ha hb⟩
    intro hx
    obtain ⟨o, ho, -⟩ := exists_outcome ha hb hx
    exact outcome_decides ho
  · intro a b i j ha hb hi hj
    refine ⟨fun hs => compare_signed ha hb hs.1 hs.2, fun hs => ?_⟩
    rw [← Bool.and_eq_true_iff, Bool.not_eq_true] at hs
    exact compare_patterns ha hb hi hj hs
  · intro S hS
    simp only [List.mem_cons, List.not_mem_nil, or_false] at hS
    rcases hS with rfl | rfl | rfl
    · exact signedIntegers_ordered
    · exact unsignedIntegers_ordered
    · exact strings_ordered

/-- A string that looks like a number, minus one next to numbers with and without a sign, the three
integers that have all bits set, and three strings in order. -/
theorem comparison_coherent_corners :
    (∀ r ∈ relations, r (text "1") (unsigned 1) = invalid) ∧
    (signed (-1)).less (signed 1) = ofBool ((-1 : Int) < 1) ∧
    (signed (-1)).less (sized 1 8) = ofBool (2 ^ 64 - 1 < 1) ∧
    (signed (-1)).equal (sized (-1) 64) = unsigned 1 ∧
    (text "a").less (text "b") = unsigned 1 := by
  obtain ⟨hall, hintegers, -, hequal, hordered⟩ := comparison_coherent
  have hunsized (w : Word) (s : Bool) := Integer.wellFormed_of_unsized w s
  have hsized (w : Word) (width : Int) (h : (sized w width).kind = .integer) :
      sized w width ∈ integers := ⟨wellFormed_sized w width, h⟩
  have hsigned (w : Word) : signed w ∈ integers := ⟨wellFormed_signed w, rfl⟩
  have hunsigned (w : Word) : unsigned w ∈ integers := ⟨wellFormed_unsigned w, rfl⟩
  have hmixed : Xor (text "1" ∈ strings) (unsigned 1 ∈ strings) :=
    .inl ⟨rfl, by simp [strings, kind, unsigned, ofInteger]⟩
  have hbyte : (⟨1, 8, false⟩ : Integer).WellFormed := ⟨by decide, by decide, by simp⟩
  have hstrings := hordered strings (by simp)
  refine ⟨?_, ?_, ?_, ?_, ?_⟩
  · exact (hall _ (.inr rfl) _ (.inl (hunsigned 1))).1.mpr hmixed
  · exact ((hintegers _ _ _ _ rfl rfl (hunsized (-1) true) (hunsized 1 true)).1 ⟨rfl, rfl⟩).1
  · exact ((hintegers _ _ _ _ rfl rfl (hunsized (-1) true) hbyte).2 (by simp)).1
  · have hword : (signed (-1)).equal (unsigned (-1)) = unsigned 1 :=
      (equal_integers_iff rfl rfl).mpr (by decide)
    have hmost : (unsigned (-1)).equal (sized (-1) 64) = unsigned 1 :=
      (equal_integers_iff rfl rfl).mpr (by decide)
    exact hequal.trans (x := ⟨_, hsigned (-1)⟩) (y := ⟨_, hunsigned (-1)⟩)
      (z := ⟨_, hsized (-1) 64 rfl⟩) hword hmost
  · have hshort : (text "a").less (text "aa") = unsigned 1 :=
      (less_iff (compare?_texts rfl rfl)).mpr (by decide)
    have hlong : (text "aa").less (text "b") = unsigned 1 :=
      (less_iff (compare?_texts rfl rfl)).mpr (by decide)
    exact hstrings.trans _ rfl (text "aa") rfl _ rfl hshort hlong

end HdlExpr.Value
