import Mathlib.Data.List.TakeWhile
import Mathlib.Data.Nat.Digits.Defs
import Mathlib.Tactic.FinCases
import Mathlib.Tactic.IntervalCases
import HdlExpr.Numeral

/-!
# Texts that start with a number

Every text can be cut in exactly one way into white space, a sign, a mark of the base, digits and
what follows them, where each part is as long as it can be.
-/

namespace HdlExpr.Numeral

/-! ## Digits -/

/-- The digits of the bases up to sixteen, in the order of their values. -/
def digitSigns : List Char :=
  ['0', '1', '2', '3', '4', '5', '6', '7', '8', '9', 'a', 'b', 'c', 'd', 'e', 'f']

/-- Capital letters count as small ones. -/
def IsDigit (base : Nat) (c : Char) : Prop := c.toLower ∈ digitSigns.take base

instance (base : Nat) : DecidablePred (IsDigit base) := fun c =>
  inferInstanceAs (Decidable (c.toLower ∈ digitSigns.take base))

def signValue (c : Char) : Nat := digitSigns.idxOf c.toLower

def number (base : Nat) (digits : List Char) : Nat :=
  Nat.ofDigits base (digits.map signValue).reverse

@[simp] theorem number_concat (base : Nat) (digits : List Char) (c : Char) :
    number base (digits ++ [c]) = number base digits * base + signValue c := by
  simp only [number, List.map_append, List.map_singleton, List.reverse_append,
    List.reverse_singleton, List.singleton_append, Nat.ofDigits_cons]
  exact (Nat.add_comm _ _).trans (congrArg (· + _) (Nat.mul_comm _ _))

def hexSigns : List Char := digitSigns ++ ['A', 'B', 'C', 'D', 'E', 'F']

theorem le_iff_toNat_le (c d : Char) : c ≤ d ↔ c.toNat ≤ d.toNat := Iff.rfl

private theorem mem_hexSigns_of_toNat {c : Char} (h : 48 ≤ c.toNat ∧ c.toNat ≤ 57 ∨
    97 ≤ c.toNat ∧ c.toNat ≤ 102 ∨ 65 ≤ c.toNat ∧ c.toNat ≤ 70) : c ∈ hexSigns := by
  rw [← Char.ofNat_toNat c]
  generalize c.toNat = n at h ⊢
  rcases h with ⟨hlow, hhigh⟩ | ⟨hlow, hhigh⟩ | ⟨hlow, hhigh⟩ <;> interval_cases n <;> decide

private theorem mem_hexSigns_of_digitValue {c : Char} (h : digitValue c < 16) : c ∈ hexSigns := by
  have h0 : ('0' : Char).toNat = 48 := rfl
  have h9 : ('9' : Char).toNat = 57 := rfl
  have ha : ('a' : Char).toNat = 97 := rfl
  have hA : ('A' : Char).toNat = 65 := rfl
  simp only [digitValue, isDigit, Bool.and_eq_true, decide_eq_true_eq, le_iff_toNat_le] at h
  apply mem_hexSigns_of_toNat
  split at h
  · omega
  · split at h
    · omega
    · split at h <;> omega

theorem mem_hexSigns_of_toLower {c : Char} (h : c.toLower ∈ digitSigns) : c ∈ hexSigns := by
  by_cases hc : 65 ≤ c.toNat ∧ c.toNat ≤ 90
  · obtain ⟨hlow, hhigh⟩ := hc
    revert h
    rw [← Char.ofNat_toNat c]
    generalize c.toNat = n at hlow hhigh ⊢
    interval_cases n <;> decide
  · have hlower : c.toLower = c := dif_neg hc
    rw [hlower] at h
    exact List.mem_append_left _ h

private theorem value_of_mem_hexSigns :
    ∀ c ∈ hexSigns, digitValue c = signValue c ∧ c.toLower ∈ digitSigns := by
  intro c hc
  fin_cases hc <;> exact ⟨rfl, by decide⟩

theorem digitValue_lt_iff {base : Nat} (hbase : base ≤ 16) (c : Char) :
    digitValue c < base ↔ IsDigit base c := by
  constructor
  · intro h
    obtain ⟨hvalue, hmem⟩ := value_of_mem_hexSigns c (mem_hexSigns_of_digitValue (by omega))
    rw [hvalue] at h
    exact (List.mem_take_iff_idxOf_lt hmem).mpr h
  · intro h
    have hmem : c.toLower ∈ digitSigns := List.mem_of_mem_take h
    rw [(value_of_mem_hexSigns c (mem_hexSigns_of_toLower hmem)).1]
    exact (List.mem_take_iff_idxOf_lt hmem).mp h

theorem IsDigit.digitValue_eq {base : Nat} {c : Char} (h : IsDigit base c) :
    digitValue c = signValue c :=
  (value_of_mem_hexSigns c (mem_hexSigns_of_toLower (List.mem_of_mem_take h))).1

theorem isDigit_iff (c : Char) : isDigit c = true ↔ IsDigit 10 c := by
  rw [← digitValue_lt_iff (by decide)]
  unfold digitValue
  constructor
  · intro h
    rw [if_pos h]
    have h0 : ('0' : Char).toNat = 48 := rfl
    have h9 : ('9' : Char).toNat = 57 := rfl
    simp only [isDigit, Bool.and_eq_true, decide_eq_true_eq, le_iff_toNat_le] at h
    omega
  · intro h
    by_contra hc
    rw [if_neg hc] at h
    split at h
    · omega
    · split at h <;> omega

/-! ## Runs -/

section Runs

variable {p : Char → Bool} {xs ys : List Char}

theorem takeWhile_append_of_stop (hxs : ∀ c ∈ xs, p c = true) (hys : ∀ c ∈ ys.head?, p c = false) :
    (xs ++ ys).takeWhile p = xs := by
  rw [List.takeWhile_append_of_pos hxs]
  cases ys with
  | nil => simp
  | cons c ys => simp [hys c rfl]

private theorem dropWhile_append_of_stop (hxs : ∀ c ∈ xs, p c = true)
    (hys : ∀ c ∈ ys.head?, p c = false) : (xs ++ ys).dropWhile p = ys := by
  rw [List.dropWhile_append_of_pos hxs]
  cases ys with
  | nil => rfl
  | cons c ys => simp [hys c rfl]

private theorem stop_dropWhile (p : Char → Bool) (xs : List Char) :
    ∀ c ∈ (xs.dropWhile p).head?, p c = false := by
  have hstop := List.head?_dropWhile_not p xs
  intro c hc
  rw [Option.mem_def.mp hc] at hstop
  exact hstop

end Runs

/-! ## Parts -/

structure Parts where
  blanks : List Char
  sign : List Char
  mark : List Char
  digits : List Char
  rest : List Char

namespace Parts

def afterMark (p : Parts) : List Char := p.digits ++ p.rest

def afterSign (p : Parts) : List Char := p.mark ++ p.afterMark

def afterBlanks (p : Parts) : List Char := p.sign ++ p.afterSign

def whole (p : Parts) : List Char := p.blanks ++ p.afterBlanks

/-- The mark of base sixteen stands in front, and a digit follows it. -/
def IsMarked (cs : List Char) : Prop :=
  ∃ x d tail, cs = '0' :: x :: d :: tail ∧ (x = 'x' ∨ x = 'X') ∧ IsDigit 16 d

/-- What the parts of a text are in a base, and that each of them takes all that it can. -/
structure Fits (p : Parts) (base : Nat) : Prop where
  blanks : ∀ c ∈ p.blanks, Text.isBlank c = true
  after_blanks : ∀ c ∈ p.afterBlanks.head?, Text.isBlank c = false
  sign : p.sign ∈ [[], ['+'], ['-']]
  after_sign : p.sign = [] → ∀ c ∈ p.afterSign.head?, c ≠ '+' ∧ c ≠ '-'
  mark : p.mark = [] ∨ base = 16 ∧ p.mark ∈ [['0', 'x'], ['0', 'X']] ∧ IsMarked p.afterSign
  after_mark : p.mark = [] → base = 16 → ¬IsMarked p.afterMark
  digits : ∀ c ∈ p.digits, IsDigit base c
  after_digits : ∀ c ∈ p.rest.head?, ¬IsDigit base c

def Splits (p : Parts) (base : Nat) (text : String) : Prop :=
  p.whole = text.toList ∧ p.Fits base

end Parts

/-! ## One way to cut a text -/

private theorem splitSign_append {sign cs : List Char} (hsign : sign ∈ [[], ['+'], ['-']])
    (hcs : sign = [] → ∀ c ∈ cs.head?, c ≠ '+' ∧ c ≠ '-') :
    splitSign (sign ++ cs) = (decide (sign = ['-']), cs) := by
  simp only [List.mem_cons, List.not_mem_nil, or_false] at hsign
  rcases hsign with rfl | rfl | rfl
  · cases cs with
    | nil => rfl
    | cons c cs =>
      obtain ⟨hplus, hminus⟩ := hcs rfl c rfl
      simp [splitSign, hplus, hminus]
  · rfl
  · rfl

private theorem exists_sign (cs : List Char) :
    ∃ sign tail, cs = sign ++ tail ∧ sign ∈ [[], ['+'], ['-']] ∧
      (sign = [] → ∀ c ∈ tail.head?, c ≠ '+' ∧ c ≠ '-') := by
  by_cases hplus : cs.head? = some '+'
  · obtain ⟨tail, rfl⟩ := List.head?_eq_some_iff.mp hplus
    exact ⟨['+'], tail, rfl, by simp, by simp⟩
  · by_cases hminus : cs.head? = some '-'
    · obtain ⟨tail, rfl⟩ := List.head?_eq_some_iff.mp hminus
      exact ⟨['-'], tail, rfl, by simp, by simp⟩
    · refine ⟨[], cs, rfl, by simp, ?_⟩
      intro _ c hc
      rw [Option.mem_def.mp hc] at hplus hminus
      exact ⟨fun h => hplus (congrArg some h), fun h => hminus (congrArg some h)⟩

private theorem dropHexMark_marked {x d : Char} {tail : List Char} (hx : x = 'x' ∨ x = 'X')
    (hd : IsDigit 16 d) : dropHexMark ('0' :: x :: d :: tail) = d :: tail := by
  rw [← digitValue_lt_iff le_rfl] at hd
  rcases hx with rfl | rfl <;> simp [dropHexMark, hd]

private theorem dropHexMark_unmarked {cs : List Char} (h : ¬Parts.IsMarked cs) :
    dropHexMark cs = cs := by
  unfold dropHexMark
  split
  case h_1 x d tail =>
    split
    case isTrue hc =>
      simp only [Bool.and_eq_true, Bool.or_eq_true, beq_iff_eq, decide_eq_true_eq] at hc
      exact absurd ⟨x, d, tail, rfl, hc.1, (digitValue_lt_iff le_rfl d).mp hc.2⟩ h
    case isFalse => rfl
  case h_2 => rfl

namespace Parts

variable {p q : Parts} {base : Nat}

namespace Fits

theorem trimLeft_eq (hp : p.Fits base) : Text.trimLeft p.whole = p.afterBlanks :=
  dropWhile_append_of_stop hp.blanks hp.after_blanks

theorem splitSign_eq (hp : p.Fits base) :
    splitSign p.afterBlanks = (decide (p.sign = ['-']), p.afterSign) :=
  splitSign_append hp.sign hp.after_sign

theorem dropMark_eq (hp : p.Fits base) :
    (if base = 16 then dropHexMark p.afterSign else p.afterSign) = p.afterMark := by
  rcases hp.mark with hmark | ⟨rfl, hmark, x, d, tail, htext, hx, hd⟩
  · have hsign : p.afterSign = p.afterMark := by rw [afterSign, hmark, List.nil_append]
    rw [hsign]
    split
    case isTrue h16 => exact dropHexMark_unmarked (hp.after_mark hmark h16)
    case isFalse => rfl
  · have hcut : p.afterSign = ['0', x] ++ d :: tail := htext
    have hlength : p.mark.length = 2 := by
      simp only [List.mem_cons, List.not_mem_nil, or_false] at hmark
      rcases hmark with h | h <;> rw [h] <;> rfl
    have hafter : p.afterMark = d :: tail := (List.append_inj hcut hlength).2
    rw [if_pos rfl, htext, dropHexMark_marked hx hd, hafter]

theorem takeWhile_eq (hp : p.Fits base) (hbase : base ≤ 16) :
    p.afterMark.takeWhile (digitValue · < base) = p.digits := by
  apply takeWhile_append_of_stop
  · intro c hc
    exact decide_eq_true ((digitValue_lt_iff hbase c).mpr (hp.digits c hc))
  · intro c hc
    exact decide_eq_false fun h => hp.after_digits c hc ((digitValue_lt_iff hbase c).mp h)

/-- From the left to the right, each part is decided by what the parts before it leave. -/
theorem unique (hp : p.Fits base) (hq : q.Fits base) (hbase : base ≤ 16)
    (h : p.whole = q.whole) : p = q := by
  have hblanks : p.afterBlanks = q.afterBlanks := by rw [← hp.trimLeft_eq, h, hq.trimLeft_eq]
  have hsign : p.afterSign = q.afterSign := by
    have hboth := hp.splitSign_eq
    rw [hblanks, hq.splitSign_eq] at hboth
    exact (congrArg Prod.snd hboth).symm
  have hmark : p.afterMark = q.afterMark := by rw [← hp.dropMark_eq, hsign, hq.dropMark_eq]
  have hdigits : p.digits = q.digits := by
    rw [← hp.takeWhile_eq hbase, hmark, hq.takeWhile_eq hbase]
  obtain ⟨blanks, sign, mark, digits, rest⟩ := p
  obtain ⟨blanks', sign', mark', digits', rest'⟩ := q
  obtain rfl : digits = digits' := hdigits
  obtain rfl : rest = rest' := List.append_cancel_left hmark
  obtain rfl : mark = mark' := List.append_cancel_right hsign
  obtain rfl : sign = sign' := List.append_cancel_right hblanks
  obtain rfl : blanks = blanks' := List.append_cancel_right h
  rfl

end Fits

private theorem exists_mark (base : Nat) (cs : List Char) :
    ∃ mark tail, cs = mark ++ tail ∧
      (mark = [] ∨ base = 16 ∧ mark ∈ [['0', 'x'], ['0', 'X']] ∧ IsMarked cs) ∧
      (mark = [] → base = 16 → ¬IsMarked tail) := by
  by_cases h : base = 16 ∧ IsMarked cs
  · obtain ⟨h16, x, d, tail, rfl, hx, hd⟩ := h
    refine ⟨['0', x], d :: tail, rfl, .inr ⟨h16, ?_, x, d, tail, rfl, hx, hd⟩, by simp⟩
    rcases hx with rfl | rfl <;> simp
  · exact ⟨[], cs, rfl, .inl rfl, fun _ h16 hmarked => h ⟨h16, hmarked⟩⟩

private theorem exists_fits (hbase : base ≤ 16) (cs : List Char) :
    ∃ p : Parts, p.Fits base ∧ p.whole = cs := by
  have hblanks : cs.takeWhile Text.isBlank ++ cs.dropWhile Text.isBlank = cs :=
    List.takeWhile_append_dropWhile
  obtain ⟨sign, unsigned, hsign, hmem, hfree⟩ := exists_sign (cs.dropWhile Text.isBlank)
  obtain ⟨mark, plain, rfl, hmark, hunmarked⟩ := exists_mark base unsigned
  have hdigits : plain.takeWhile (digitValue · < base) ++ plain.dropWhile (digitValue · < base) =
      plain := List.takeWhile_append_dropWhile
  let p : Parts := ⟨cs.takeWhile Text.isBlank, sign, mark, plain.takeWhile (digitValue · < base),
    plain.dropWhile (digitValue · < base)⟩
  have hafterMark : p.afterMark = plain := hdigits
  have hafterSign : p.afterSign = mark ++ plain := congrArg (mark ++ ·) hafterMark
  have hafterBlanks : p.afterBlanks = cs.dropWhile Text.isBlank := by
    rw [hsign, ← hafterSign]
    rfl
  refine ⟨p, ⟨?_, ?_, hmem, ?_, ?_, ?_, ?_, ?_⟩, ?_⟩
  · intro c hc
    exact List.mem_takeWhile_imp hc
  · rw [hafterBlanks]
    exact stop_dropWhile Text.isBlank cs
  · rw [hafterSign]
    exact hfree
  · rw [hafterSign]
    exact hmark
  · rw [hafterMark]
    exact hunmarked
  · intro c hc
    have hdigit := List.mem_takeWhile_imp hc
    exact (digitValue_lt_iff hbase c).mp (of_decide_eq_true hdigit)
  · intro c hc hdigit
    have hstop := stop_dropWhile (digitValue · < base) plain c hc
    exact of_decide_eq_false hstop ((digitValue_lt_iff hbase c).mpr hdigit)
  · rw [whole, hafterBlanks]
    exact hblanks

theorem exists_splits (hbase : base ≤ 16) (text : String) :
    ∃ p : Parts, ∀ q : Parts, q.Splits base text ↔ q = p := by
  obtain ⟨p, hp, htext⟩ := exists_fits hbase text.toList
  refine ⟨p, ?_⟩
  intro q
  constructor
  · rintro ⟨hwhole, hq⟩
    exact hq.unique hp hbase (hwhole.trans htext.symm)
  · rintro rfl
    exact ⟨htext, hp⟩

end Parts

end HdlExpr.Numeral
