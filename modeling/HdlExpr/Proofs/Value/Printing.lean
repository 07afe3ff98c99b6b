import HdlExpr.Lower
import HdlExpr.Proofs.Fold.Visits
import HdlExpr.Proofs.Numeral.Based
import HdlExpr.Proofs.Numeral.Decimal
import HdlExpr.Proofs.Value.Arithmetic
import HdlExpr.Tree.Build

/-!
# Printed values

The decimal text of a number is cut into a sign and digits, so what reads numbers gives the number
back.  A literal with the text of a signed integer is lowered to the constant that carries this
integer, and the text of a constant tells its value up to the width.
-/

namespace HdlExpr

/-! ## Numbers -/

namespace Numeral

private theorem signValue_digitChar : ∀ d < 10, signValue (Nat.digitChar d) = d := by
  decide

private theorem number_toDigits (n : Nat) : number 10 (Nat.toDigits 10 n) = n := by
  induction n using Nat.strongRecOn with
  | ind n ih =>
    by_cases hn : n < 10
    · rw [Nat.toDigits_of_lt_base hn]
      have hnil : number 10 [Nat.digitChar n] = number 10 [] * 10 + signValue (Nat.digitChar n) :=
        number_concat 10 [] _
      rw [hnil, signValue_digitChar n hn]
      simp [number]
    · rw [Nat.toDigits_of_base_le (by decide) (by omega), number_concat, ih (n / 10) (by omega),
        signValue_digitChar _ (Nat.mod_lt n (by decide))]
      omega

private theorem isDigit_of_mem_toDigits {n : Nat} {c : Char} (h : c ∈ Nat.toDigits 10 n) :
    IsDigit 10 c := by
  rw [← isDigit_iff]
  have hc := Nat.isDigit_of_mem_toDigits (by decide) (by decide) h
  simpa [isDigit, Char.isDigit, Char.le_def] using hc

theorem IsDigit.plain {c : Char} (h : IsDigit 10 c) :
    Text.isBlank c = false ∧ c ≠ '+' ∧ c ≠ '-' ∧ c ≠ '\'' := by
  have hrange : 48 ≤ c.toNat ∧ c.toNat ≤ 57 := by
    simpa [isDigit, le_iff_toNat_le] using (isDigit_iff c).mpr h
  refine ⟨?_, ?_, ?_, ?_⟩
  · simp only [Text.isBlank, Bool.or_eq_false_iff, Bool.and_eq_false_iff, decide_eq_false_iff_not,
      beq_eq_false_iff_ne]
    omega
  · rintro rfl
    exact absurd hrange (by decide)
  · rintro rfl
    exact absurd hrange (by decide)
  · rintro rfl
    exact absurd hrange (by decide)

def printedSign (i : Int) : List Char := if i < 0 then ['-'] else []

private theorem toList_toString (i : Int) :
    (toString i).toList = printedSign i ++ Nat.toDigits 10 i.natAbs := by
  cases i with
  | ofNat n =>
    have hsign : printedSign (.ofNat n) = [] := if_neg (by simp)
    rw [hsign]
    exact Nat.toList_repr
  | negSucc n =>
    have hsign : printedSign (.negSucc n) = ['-'] := if_pos (Int.negSucc_lt_zero n)
    have htext : toString (Int.negSucc n) = "-" ++ (n + 1).repr := rfl
    rw [hsign, htext, String.toList_append, Nat.toList_repr]
    rfl

private theorem splits_toString (i : Int) :
    Parts.Splits ⟨[], printedSign i, [], Nat.toDigits 10 i.natAbs, []⟩ 10 (toString i) := by
  have hhead : ∀ c ∈ (Nat.toDigits 10 i.natAbs).head?, IsDigit 10 c := fun c hc =>
    isDigit_of_mem_toDigits (List.mem_of_mem_head? hc)
  constructor
  · rw [toList_toString]
    simp [Parts.whole, Parts.afterBlanks, Parts.afterSign, Parts.afterMark]
  · constructor
    · simp
    · intro c hc
      by_cases hi : i < 0
      · simp only [Parts.afterBlanks, printedSign, if_pos hi] at hc
        cases hc
        rfl
      · simp only [Parts.afterBlanks, Parts.afterSign, Parts.afterMark, printedSign, if_neg hi,
          List.nil_append, List.append_nil] at hc
        exact (hhead c hc).plain.1
    · unfold printedSign
      split <;> simp
    · intro _ c hc
      simp only [Parts.afterSign, Parts.afterMark, List.nil_append, List.append_nil] at hc
      exact ⟨(hhead c hc).plain.2.1, (hhead c hc).plain.2.2.1⟩
    · exact .inl rfl
    · simp
    · exact fun c => isDigit_of_mem_toDigits
    · simp

private theorem decimal_toString {i : Int} (hlow : -2 ^ 63 ≤ i) (hhigh : i < 2 ^ 63) :
    decimal (toString i) = i := by
  rw [(splits_toString i).decimal_eq, number_toDigits]
  by_cases hi : i < 0
  · have hsign : printedSign i = ['-'] := if_pos hi
    have habs : (i.natAbs : Int) = -i := by omega
    rw [hsign, if_pos rfl, habs]
    omega
  · have hsign : printedSign i = [] := if_neg hi
    have habs : (i.natAbs : Int) = i := by omega
    rw [hsign, if_neg (by simp), habs]
    omega

private theorem based_toString {n : Nat} (h : n < 2 ^ 64) :
    based 10 (toString (n : Int)) = BitVec.ofNat 64 n := by
  have hsign : printedSign n = [] := if_neg (by omega)
  rw [(splits_toString n).based_eq (by decide) (by decide), number_toDigits, Int.natAbs_natCast,
    if_neg (by omega), hsign]
  rfl

private theorem toString_inj {i j : Int} (h : toString i = toString j) : i = j := by
  obtain ⟨hi, hfits⟩ := splits_toString i
  obtain ⟨hj, hfits'⟩ := splits_toString j
  have hparts := hfits.unique hfits' (by decide) (by rw [hi, hj, h])
  simp only [Parts.mk.injEq, true_and, and_true] at hparts
  obtain ⟨hsign, hdigits⟩ := hparts
  have habs : i.natAbs = j.natAbs := by
    rw [← number_toDigits i.natAbs, hdigits, number_toDigits]
  have hneg : i < 0 ↔ j < 0 := by
    by_cases hlt : i < 0 <;> by_cases hlt' : j < 0 <;> simp [printedSign, hlt, hlt'] at hsign ⊢
  omega

private theorem tick_notMem_toString (i : Int) : '\'' ∉ (toString i).toList := by
  rw [toList_toString]
  intro h
  rcases List.mem_append.mp h with hsign | hdigit
  · unfold printedSign at hsign
    split at hsign <;> simp at hsign
  · exact (isDigit_of_mem_toDigits hdigit).plain.2.2.2 rfl

end Numeral

/-! ## Literals -/

namespace Literal

theorem afterTick_eq_none {cs : List Char} (h : '\'' ∉ cs) : afterTick cs = none := by
  induction cs with
  | nil => rfl
  | cons c cs ih =>
    rw [List.mem_cons, not_or] at h
    obtain ⟨hc, hcs⟩ := h
    rw [afterTick, if_neg (Ne.symm hc), ih hcs]

theorem hasTick_eq_false (letter : Char) {cs : List Char} (h : '\'' ∉ cs) :
    hasTick letter cs = false := by
  induction cs with
  | nil => rfl
  | cons c cs ih =>
    rw [List.mem_cons, not_or] at h
    obtain ⟨hc, hcs⟩ := h
    cases cs with
    | nil => rfl
    | cons d rest =>
      rw [hasTick, ih hcs]
      simp [Ne.symm hc]

theorem kind_eq_int {text : String} (h : '\'' ∉ text.toList) : kind text = .int := by
  simp [kind, hasTick_eq_false _ h, h]

theorem value_eq_signed {text : String} (h : '\'' ∉ text.toList) :
    value text = Value.signed (BitVec.ofInt 64 (Numeral.decimal text)) := by
  rw [value, integer, afterTick_eq_none h]

end Literal

namespace Value

@[simp] private theorem toText_signed (w : Word) : (signed w).toText = toString w.toInt := rfl

@[simp] private theorem toText_unsigned (w : Word) :
    (unsigned w).toText = toString (w.toNat : Int) := rfl

private theorem decimal_toText (w : Word) : Numeral.decimal (signed w).toText = w.toInt :=
  Numeral.decimal_toString w.le_toInt w.toInt_lt

private theorem based_toText (w : Word) : Numeral.based 10 (unsigned w).toText = w := by
  rw [toText_unsigned, Numeral.based_toString w.isLt, BitVec.ofNat_toNat, BitVec.setWidth_eq]

private theorem literalText?_toText (w : Word) :
    Tag.literalText? .intConst (signed w).toText = some (signed w).encode := by
  have hkind := Literal.kind_eq_int (Numeral.tick_notMem_toString w.toInt)
  rw [Tag.literalText?, toText_signed, hkind]
  rfl

private theorem literalValue?_toText (w : Word) :
    Tag.literalValue? .intConst (signed w).toText = some (signed w) := by
  have hvalue := Literal.value_eq_signed (Numeral.tick_notMem_toString w.toInt)
  rw [Tag.literalValue?, toText_signed, hvalue, ← toText_signed, decimal_toText,
    BitVec.ofInt_toInt]

end Value

theorem Fold.evaluate_literal {t : Tree} {n : NodeId} {tag : Tag} {text : String}
    (h : (Form.decode t n).shape = .literal tag text) (mute : Bool) {limit : Nat}
    (hpos : 0 < limit) (scope : Scope) :
    (evaluate ⟨t, mute, limit⟩ n scope).value = (tag.literalValue? text).getD .invalid := by
  obtain ⟨budget, rfl⟩ := Nat.exists_eq_succ_of_ne_zero hpos.ne'
  simp only [evaluate, StateT.run, Nat.succ_eq_add_one, fold_succ, h, result]

theorem Lower.lower_literal {t : Tree} {n : NodeId} {tag : Tag} {text content : String}
    (h : (Form.decode t n).shape = .literal tag text) (ht : tag.literalText? text = some content)
    {limit : Nat} (hpos : 0 < limit) (parent : Nat) (σ : Substitution) (factory : Ir.Factory) :
    (lower ⟨t, limit⟩ n parent σ factory).node =
      some (.constant (factory.issue .constant).1 parent content) := by
  obtain ⟨budget, rfl⟩ := Nat.exists_eq_succ_of_ne_zero hpos.ne'
  simp only [lower, lowerNode, visit, h, visitLiteral, ht]
  rfl

/-! ## Constants -/

namespace Value

/-- What the constants of integers and strings start with. -/
def labels : List String := ["INT:", "SCAL:", "STRING:"]

private theorem label_append_inj {p q s t : String} (hp : p ∈ labels) (hq : q ∈ labels)
    (h : p ++ s = q ++ t) : p = q ∧ s = t := by
  have hint : "INT:".toList = ['I', 'N', 'T', ':'] := rfl
  have hscal : "SCAL:".toList = ['S', 'C', 'A', 'L', ':'] := rfl
  have hstring : "STRING:".toList = ['S', 'T', 'R', 'I', 'N', 'G', ':'] := rfl
  have hchars := congrArg String.toList h
  simp only [labels, List.mem_cons, List.not_mem_nil, or_false] at hp hq
  rw [String.toList_append, String.toList_append] at hchars
  rcases hp with rfl | rfl | rfl <;> rcases hq with rfl | rfl | rfl <;>
    simp [hint, hscal, hstring, String.toList_inj] at hchars ⊢ <;> exact hchars

def integerLabel (i : Integer) : String := if i.width = 1 then "SCAL:" else "INT:"

private theorem integerLabel_mem (i : Integer) : integerLabel i ∈ labels := by
  unfold integerLabel
  split <;> simp [labels]

private theorem integerLabel_inj {i j : Integer} (h : integerLabel i = integerLabel j) :
    (i.width == 1) = (j.width == 1) := by
  by_cases hi : i.width = 1 <;> by_cases hj : j.width = 1 <;> simp_all [integerLabel]

private theorem encode_integer {v : Value} {i : Integer} (hv : v.datum = .integer i)
    (hi : i.WellFormed) : v.encode = integerLabel i ++ toString i.toInt := by
  by_cases h1 : i.width = 1
  · -- A single bit has no sign, so that its number is the bit.
    have hsigned : i.signed = false := by
      by_contra hs
      have hzero := hi.unsized (by simpa using hs)
      omega
    have hbits : i.bits.toNat < 2 := by
      have hlt := hi.bits_lt
      rwa [Integer.limit, h1] at hlt
    have hbit : (i.bits &&& 1).toNat = i.bits.toNat := by
      rw [BitVec.toNat_and]
      exact Nat.and_one_is_mod _ ▸ Nat.mod_eq_of_lt hbits
    simp only [encode, hv, if_pos h1, integerLabel, hbit, Integer.toInt, hsigned]
    rfl
  · simp only [encode, hv, if_neg h1, integerLabel, toText]

private theorem encode_text {v : Value} {s : String} (hv : v.datum = .text s) :
    v.encode = "STRING:" ++ s := by
  simp only [encode, hv]

/-- Values that no constant tells apart. -/
structure SameConstant (v w : Value) : Prop where
  kind : v.kind = w.kind
  content : v.content = w.content
  scalar : v.isScalar = w.isScalar
  number : ∀ i j, v.datum = .integer i → w.datum = .integer j → i.toInt = j.toInt

section Encode

variable {v w : Value} {i j : Integer} {s t : String}

private theorem sameConstant_integers (hv : v.datum = .integer i) (hw : w.datum = .integer j) :
    SameConstant v w ↔ (i.width == 1) = (j.width == 1) ∧ i.toInt = j.toInt := by
  constructor
  · intro h
    have hscalar := h.scalar
    simp only [isScalar, hv, hw] at hscalar
    exact ⟨hscalar, h.number i j hv hw⟩
  · rintro ⟨hscalar, hnumber⟩
    constructor
    · simp only [kind, hv, hw]
    · simp only [content, hv, hw]
    · simpa only [isScalar, hv, hw] using hscalar
    · intro i' j' hi' hj'
      rw [hv] at hi'
      rw [hw] at hj'
      cases hi'
      cases hj'
      exact hnumber

private theorem sameConstant_texts (hv : v.datum = .text s) (hw : w.datum = .text t) :
    SameConstant v w ↔ s = t := by
  constructor
  · intro h
    have hcontent := h.content
    simpa only [content, hv, hw] using hcontent
  · rintro rfl
    constructor
    · simp only [kind, hv, hw]
    · simp only [content, hv, hw]
    · simp only [isScalar, hv, hw]
    · intro i j hi
      rw [hv] at hi
      cases hi

private theorem encode_integers_iff (hv : v.datum = .integer i) (hw : w.datum = .integer j)
    (hi : i.WellFormed) (hj : j.WellFormed) : v.encode = w.encode ↔ SameConstant v w := by
  rw [sameConstant_integers hv hw, encode_integer hv hi, encode_integer hw hj]
  constructor
  · intro h
    obtain ⟨hlabel, htext⟩ := label_append_inj (integerLabel_mem i) (integerLabel_mem j) h
    exact ⟨integerLabel_inj hlabel, Numeral.toString_inj htext⟩
  · rintro ⟨hscalar, hnumber⟩
    have hlabel : integerLabel i = integerLabel j := by
      simpa [integerLabel] using congrArg (fun b : Bool => if b then "SCAL:" else "INT:") hscalar
    rw [hlabel, hnumber]

private theorem encode_texts_iff (hv : v.datum = .text s) (hw : w.datum = .text t) :
    v.encode = w.encode ↔ SameConstant v w := by
  rw [sameConstant_texts hv hw, encode_text hv, encode_text hw]
  constructor
  · intro h
    exact (label_append_inj (by simp [labels]) (by simp [labels]) h).2
  · rintro rfl
    rfl

private theorem encode_integer_ne_text (hv : v.datum = .integer i) (hw : w.datum = .text s)
    (hi : i.WellFormed) : v.encode ≠ w.encode := by
  rw [encode_integer hv hi, encode_text hw]
  intro h
  have hlabel := (label_append_inj (integerLabel_mem i) (by simp [labels]) h).1
  unfold integerLabel at hlabel
  split at hlabel <;> simp at hlabel

private theorem encode_eq_iff (hv : v.WellFormed) (hw : w.WellFormed)
    (hkv : v.kind ∈ [.integer, .text]) (hkw : w.kind ∈ [.integer, .text]) :
    v.encode = w.encode ↔ SameConstant v w := by
  simp only [List.mem_cons, List.not_mem_nil, or_false] at hkv hkw
  rcases hkv with hkv | hkv <;> rcases hkw with hkw | hkw
  · obtain ⟨i, hi⟩ := kind_eq_integer_iff.mp hkv
    obtain ⟨j, hj⟩ := kind_eq_integer_iff.mp hkw
    exact encode_integers_iff hi hj (hv i hi) (hw j hj)
  · obtain ⟨i, hi⟩ := kind_eq_integer_iff.mp hkv
    obtain ⟨t, ht⟩ := kind_eq_text_iff.mp hkw
    refine iff_of_false (encode_integer_ne_text hi ht (hv i hi)) fun h => ?_
    simpa [hkv, hkw] using h.kind
  · obtain ⟨s, hs⟩ := kind_eq_text_iff.mp hkv
    obtain ⟨j, hj⟩ := kind_eq_integer_iff.mp hkw
    refine iff_of_false (encode_integer_ne_text hj hs (hw j hj)).symm fun h => ?_
    simpa [hkv, hkw] using h.kind
  · obtain ⟨s, hs⟩ := kind_eq_text_iff.mp hkv
    obtain ⟨t, ht⟩ := kind_eq_text_iff.mp hkw
    exact encode_texts_iff hs ht

end Encode

/-- What a value is printed as reads back.  A signed integer comes back from its text, as a number
and as the value of a literal with this text, which is lowered to the constant of the integer; an
unsigned one comes back as a word.  A constant tells the kind of the value that it holds, unless
this is real, and the characters of a string, and of an integer its number and whether it is a
single bit. -/
theorem printing_reads_back :
    (∀ w : Word, Numeral.decimal (signed w).toText = w.toInt) ∧
    (∀ (w : Word) (t : Tree) (n : NodeId),
      (Form.decode t n).shape = .literal .intConst (signed w).toText → ∀ limit : Nat, 0 < limit →
        (∀ parent σ factory, (Lower.lower ⟨t, limit⟩ n parent σ factory).node =
          some (.constant (factory.issue .constant).1 parent (signed w).encode)) ∧
        ∀ mute scope, (Fold.evaluate ⟨t, mute, limit⟩ n scope).value = signed w) ∧
    (∀ w : Word, Numeral.based 10 (unsigned w).toText = w) ∧
    ∀ v w : Value, v.WellFormed → w.WellFormed → v.isValid = true → w.isValid = true →
      v.kind ≠ .real → w.kind ≠ .real → (v.encode = w.encode ↔ SameConstant v w) := by
  refine ⟨decimal_toText, ?_, based_toText, ?_⟩
  · intro w t n hshape limit hpos
    constructor
    · intro parent σ factory
      exact Lower.lower_literal hshape (literalText?_toText w) hpos parent σ factory
    · intro mute scope
      rw [Fold.evaluate_literal hshape mute hpos scope, literalValue?_toText, Option.getD_some]
  · have hkind {v : Value} (hvalid : v.isValid = true) (hreal : v.kind ≠ .real) :
        v.kind ∈ [.integer, .text] := by
      cases hd : v.datum <;> simp_all [isValid, kind]
    intro v w hv hw hvv hvw hrv hrw
    exact encode_eq_iff hv hw (hkind hvv hrv) (hkind hvw hrw)

/-- A literal with the text of the least signed integer. -/
def leastLiteral : NodeId × Tree :=
  Tree.Build.literal .intConst "-9223372036854775808" ⟨"a.sv", #[]⟩

/-- The least signed integer is read back, eight bits are written as their number, and a single bit
is told from a number. -/
theorem printing_reads_back_least :
    let least := signed (BitVec.intMin 64)
    (Form.decode leastLiteral.2 leastLiteral.1).shape = .literal .intConst least.toText ∧
    (Fold.evaluate ⟨leastLiteral.2, false, 1⟩ leastLiteral.1 .empty).value = least ∧
    SameConstant (sized 200 8) (signed 200).asLvalue ∧ (scalar 1).encode ≠ (unsigned 1).encode := by
  intro least
  have hshape : (Form.decode leastLiteral.2 leastLiteral.1).shape =
      .literal .intConst least.toText := by decide +kernel
  have hread := printing_reads_back.2.1 (BitVec.intMin 64) _ _ hshape 1 (by decide)
  have hsame := printing_reads_back.2.2.2 (sized 200 8) (signed 200).asLvalue
    (wellFormed_sized 200 8) (wellFormed_signed 200) rfl rfl (by decide) (by decide)
  exact ⟨hshape, hread.2 false .empty, hsame.mp (by decide +kernel), by decide +kernel⟩

end Value

end HdlExpr
