import HdlExpr.Proofs.Value.Printing

/-!
# Bases of literals

Lowering and folding look for the base of an integer literal in two ways.  One looks for an
apostrophe and a letter anywhere in the text, some letters before others, and the other only behind
the first apostrophe.  Where there is no second apostrophe they find the same.
-/

namespace HdlExpr.Literal

/-! ## The first apostrophe -/

section Tick

variable {cs before : List Char}

private theorem afterTick_append (h : '\'' ∉ before) (after : List Char) :
    afterTick (before ++ '\'' :: after) = some after := by
  induction before with
  | nil => simp [afterTick]
  | cons c before ih =>
    obtain ⟨hc, hbefore⟩ := not_or.mp (mt List.mem_cons.mpr h)
    rw [List.cons_append, afterTick, if_neg (Ne.symm hc), ih hbefore]

/-- An apostrophe with a letter is the first apostrophe, or it comes behind that. -/
theorem hasTick_append (letter : Char) (h : '\'' ∉ before) (after : List Char) :
    hasTick letter (before ++ '\'' :: after) =
      (after.head? == some letter || hasTick letter after) := by
  induction before with
  | nil => cases after <;> simp [hasTick]
  | cons c before ih =>
    obtain ⟨hc, hbefore⟩ := not_or.mp (mt List.mem_cons.mpr h)
    rw [← ih hbefore]
    cases before with
    | nil => simp [hasTick, Ne.symm hc]
    | cons d before => simp [hasTick, Ne.symm hc]

end Tick

/-! ## Bases -/

/-- The base that is named by what stands behind an apostrophe. -/
def Radix.named (after : List Char) : Radix := (after.head?.map ofLetter).getD .unknown

def Radix.kind : Radix → Kind
  | .plain => .int
  | .hex => .hex
  | .oct => .oct
  | .bin | .dec | .unknown => .bin

theorem Radix.ofLetter_ne_plain (letter : Char) : ofLetter letter ≠ .plain := by
  unfold ofLetter
  split <;> nofun

theorem Radix.kind_ofLetter (letter : Char) :
    (ofLetter letter).kind =
      if letter = 'h' then .hex else if letter = 'b' then .bin
      else if letter = 'o' then .oct else .bin := by
  unfold ofLetter
  split <;> simp_all [kind]

theorem Radix.named_ne_plain (after : List Char) : named after ≠ .plain := by
  cases after with
  | nil => nofun
  | cons letter after => exact ofLetter_ne_plain letter

variable {text : String} {before after : List Char}

private theorem integer_of_tick (htext : text.toList = before ++ '\'' :: after)
    (h : '\'' ∉ before) : integer text = (Radix.named after,
      if Radix.named after = .unknown then "" else String.ofList after.tail) := by
  rw [integer, htext, afterTick_append h]
  cases after with
  | nil => rfl
  | cons letter after =>
    have hnamed : Radix.named (letter :: after) = Radix.ofLetter letter := rfl
    rw [hnamed, List.tail_cons]
    dsimp only
    cases Radix.ofLetter letter <;> rfl

private theorem radix_eq_plain_iff (text : String) :
    (integer text).1 = .plain ↔ '\'' ∉ text.toList := by
  constructor
  · intro hplain hmem
    obtain ⟨before, after, htext, hbefore⟩ := List.eq_append_cons_of_mem hmem
    rw [integer_of_tick htext hbefore] at hplain
    exact Radix.named_ne_plain after hplain
  · intro h
    rw [integer, afterTick_eq_none h]

private theorem kind_eq_int_iff (text : String) : kind text = .int ↔ '\'' ∉ text.toList := by
  refine ⟨fun hint hmem => ?_, kind_eq_int⟩
  have hcontains : text.toList.contains '\'' = true := List.contains_iff_mem.mpr hmem
  simp only [kind, hcontains, if_true] at hint
  split_ifs at hint

/-- Without a second apostrophe only the first one decides. -/
theorem kind_of_tick (htext : text.toList = before ++ '\'' :: after) (h : '\'' ∉ before)
    (hafter : '\'' ∉ after) : kind text = (Radix.named after).kind := by
  have hmem : '\'' ∈ before ++ '\'' :: after := by simp
  simp only [kind, htext, hasTick_append _ h, hasTick_eq_false _ hafter, Bool.or_false,
    List.contains_iff_mem, hmem, if_true]
  cases after with
  | nil => rfl
  | cons letter after => simp [Radix.named, Radix.kind_ofLetter]

private theorem kind_eq_radix_kind (h : text.toList.count '\'' ≤ 1) :
    kind text = (integer text).1.kind := by
  by_cases hmem : '\'' ∈ text.toList
  · obtain ⟨before, after, htext, hbefore⟩ := List.eq_append_cons_of_mem hmem
    have hafter : '\'' ∉ after := by
      rw [htext, List.count_append, List.count_cons_self] at h
      exact List.count_eq_zero.mp (by omega)
    rw [kind_of_tick htext hbefore hafter, integer_of_tick htext hbefore]
  · rw [kind_eq_int hmem, (radix_eq_plain_iff text).mpr hmem, Radix.kind]

/-! ## Values -/

/-- Numbers behind an apostrophe are unsigned and have no width, and one of an unknown base is
zero. -/
theorem value_of_integer {radix : Radix} {digits : String} (h : integer text = (radix, digits))
    (hplain : radix ≠ .plain) :
    value text = .unsigned (if radix = .unknown then 0 else Numeral.based radix.base digits) := by
  rw [value, h]
  cases radix with
  | plain => exact absurd rfl hplain
  | hex | bin | oct | dec | unknown => rfl

private theorem value_isSigned_iff (text : String) :
    (value text).isSigned = true ↔ (integer text).1 = .plain := by
  by_cases hplain : (integer text).1 = .plain
  · rw [value_eq_signed ((radix_eq_plain_iff text).mp hplain)]
    exact iff_of_true rfl hplain
  · rw [value_of_integer rfl hplain]
    exact iff_of_false Bool.false_ne_true hplain

/-- The base of a literal is found alike.  A text without a second apostrophe is carried as a
constant of the kind for its base.  What stands before the first apostrophe does not count: the
value is an unsigned integer without a width, and zero when the base is unknown.  In any text, the
kind is decimal and the value signed exactly when there is no apostrophe.  These are the kind and
the value that the engines give to a literal. -/
theorem classifiers_agree :
    (∀ text : String, text.toList.count '\'' ≤ 1 → kind text = (integer text).1.kind) ∧
    (∀ p q r : String, '\'' ∉ p.toList → '\'' ∉ q.toList →
      integer (p ++ "'" ++ r) = integer (q ++ "'" ++ r) ∧
      ∃ w, value (p ++ "'" ++ r) = .unsigned w ∧ value (q ++ "'" ++ r) = .unsigned w ∧
        ((integer (p ++ "'" ++ r)).1 = .unknown → w = 0)) ∧
    (∀ text : String, (kind text = .int ↔ (integer text).1 = .plain) ∧
      ((value text).isSigned = true ↔ (integer text).1 = .plain)) ∧
    ∀ (t : Tree) (n : NodeId) (text : String),
      (Form.decode t n).shape = .literal .intConst text → ∀ limit : Nat, 0 < limit →
        (∀ mute scope, (Fold.evaluate ⟨t, mute, limit⟩ n scope).value = value text) ∧
        ∀ parent σ factory, (Lower.lower ⟨t, limit⟩ n parent σ factory).node = some
          (.constant (factory.issue .constant).1 parent ((kind text).name ++ ":" ++ text)) := by
  refine ⟨fun text => kind_eq_radix_kind, ?_, ?_, ?_⟩
  · intro p q r hp hq
    have htext (s : String) : (s ++ "'" ++ r).toList = s.toList ++ '\'' :: r.toList := by simp
    have hleft := integer_of_tick (htext p) hp
    have hright := integer_of_tick (htext q) hq
    have hplain := Radix.named_ne_plain r.toList
    refine ⟨hleft.trans hright.symm, _, value_of_integer hleft hplain,
      value_of_integer hright hplain, fun hunknown => if_pos ?_⟩
    rwa [hleft] at hunknown
  · intro text
    exact ⟨(kind_eq_int_iff text).trans (radix_eq_plain_iff text).symm, value_isSigned_iff text⟩
  · intro t n text hshape limit hpos
    exact ⟨fun mute scope => Fold.evaluate_literal hshape mute hpos scope,
      fun parent σ factory => Lower.lower_literal hshape rfl hpos parent σ factory⟩

def unknownBase : NodeId × Tree := Tree.Build.literal .intConst "8'sh7F" ⟨"a.sv", #[]⟩

/-- A literal of an unknown base is carried as a binary constant and folded to an unsigned zero,
whatever its size. -/
theorem classifiers_agree_unknownBase :
    "8'sh7F".toList.count '\'' ≤ 1 ∧ '\'' ∉ "8".toList ∧ '\'' ∉ "16".toList ∧
      (Form.decode unknownBase.2 unknownBase.1).shape = .literal .intConst "8'sh7F" ∧
      (integer "8'sh7F").1 = .unknown ∧ kind "8'sh7F" = .bin ∧
      value ("16" ++ "'" ++ "sh7F") = .unsigned 0 ∧
      (Fold.evaluate ⟨unknownBase.2, false, 1⟩ unknownBase.1 .empty).value = .unsigned 0 := by
  have hcount : "8'sh7F".toList.count '\'' ≤ 1 := by decide +kernel
  have hp : '\'' ∉ "8".toList := by decide +kernel
  have hq : '\'' ∉ "16".toList := by decide +kernel
  have hshape : (Form.decode unknownBase.2 unknownBase.1).shape = .literal .intConst "8'sh7F" := by
    decide +kernel
  have hunknown : (integer "8'sh7F").1 = .unknown := by decide +kernel
  obtain ⟨hkind, hvalue, -, hengines⟩ := classifiers_agree
  obtain ⟨-, w, hleft, hright, hzero⟩ := hvalue "8" "16" "sh7F" hp hq
  obtain rfl : w = 0 := hzero hunknown
  have hfold := (hengines _ _ _ hshape 1 (by decide)).1 false .empty
  refine ⟨hcount, hp, hq, hshape, hunknown, ?_, hright, hfold.trans hleft⟩
  rw [hkind _ hcount, hunknown, Radix.kind]

-- With a second apostrophe the two may differ.
example : kind "1'b0'h" = .hex ∧ (integer "1'b0'h").1 = .bin := by decide +kernel

end HdlExpr.Literal
