import Mathlib.Algebra.BigOperators.Group.Finset.Piecewise
import Mathlib.Data.Int.ModEq
import Mathlib.Data.List.Flatten
import Mathlib.Tactic.Positivity
import Mathlib.Tactic.Ring
import HdlExpr.Proofs.Fold.Visits
import HdlExpr.Proofs.Value.Representation
import HdlExpr.Proofs.Value.Strictness

/-!
# Effects of folding

The only effects of an evaluation are those of the steps that it visits on names without a select,
one after the other and each of them once.
-/

namespace HdlExpr

/-- The direction of an operator that steps its operand. -/
def Tag.stepsUp? : Tag → Option Bool
  | .incDecPlusPlus => some true
  | .incDecMinusMinus => some false
  | _ => none

namespace Fold

open Run

/-! ## Steps -/

/-- The name whose cell an operand stands for, if it is a name without a select. -/
def target? (t : Tree) : Nat → NodeId → Option String
  | 0, _ => none
  | budget + 1, n =>
    match (Form.decode t n).shape with
    | .name ident => if ident.select = .none then some ident.name else none
    | .lvalue operand none => target? t budget operand
    | _ => none

/-- A step of a name. -/
structure Step where
  up : Bool
  name : String
  deriving DecidableEq, Repr

def Visit.step? (t : Tree) (k : Visit) : Option Step :=
  match (k.form t).shape.stepTag?.bind Tag.stepsUp?, (k.form t).shape.operands with
  | some up, [operand] => (target? t (k.budget - 1) operand).map (⟨up, ·⟩)
  | _, _ => none

/-- The steps that folding takes, in order. -/
def steps (t : Tree) (bound : String → Bool) (budget : Nat) (n : NodeId) : List Step :=
  (visits t bound budget n).filterMap (Visit.step? t)

def bump (scope : Scope) (step : Step) : Scope :=
  match scope.lookup step.name with
  | some slot => written (some slot) ((readable (scope.load slot)).step step.up) scope
  | none => scope

@[simp] private theorem steps_zero (t : Tree) (bound : String → Bool) (n : NodeId) :
    steps t bound 0 n = [] := by
  have h : Visit.step? t ⟨0, n⟩ = none := by
    unfold Visit.step?
    split <;> rfl
  simp [steps, visits, h]

private theorem steps_succ (t : Tree) (bound : String → Bool) (budget : Nat) (n : NodeId) :
    steps t bound (budget + 1) n =
      (operands bound (Form.decode t n).shape).flatMap (steps t bound budget) ++
        (Visit.step? t ⟨budget + 1, n⟩).toList := by
  unfold steps
  rw [visits, List.filterMap_append, List.filterMap_flatMap]
  cases h : Visit.step? t ⟨budget + 1, n⟩ <;> simp [h]

private theorem bump_levels (scope : Scope) (step : Step) :
    (bump scope step).levels = scope.levels := by
  unfold bump
  split
  · exact written_levels _ _ _
  · rfl

private theorem foldl_bump_levels (scope : Scope) (ss : List Step) :
    (ss.foldl bump scope).levels = scope.levels := by
  induction ss generalizing scope with
  | nil => rfl
  | cons s ss ih => rw [List.foldl_cons, ih, bump_levels]

private theorem step?_cases (bound : String → Bool) (shape : Shape) :
    (step? shape = none ∧ shape.stepTag?.bind Tag.stepsUp? = none) ∨
      ∃ up late operand, step? shape = some (Value.step up, late) ∧
        shape.stepTag?.bind Tag.stepsUp? = some up ∧ shape.operands = [operand] ∧
        operands bound shape = [operand] := by
  cases shape with
  | unary op operand =>
    cases op
    case incDecPlusPlus => exact .inr ⟨true, true, operand, rfl, rfl, rfl, rfl⟩
    case incDecMinusMinus => exact .inr ⟨false, true, operand, rfl, rfl, rfl, rfl⟩
    all_goals exact .inl ⟨rfl, rfl⟩
  | lvalue operand op =>
    cases op with
    | none => exact .inl ⟨rfl, rfl⟩
    | some op =>
      cases op
      case incDecPlusPlus => exact .inr ⟨true, false, operand, rfl, rfl, rfl, rfl⟩
      case incDecMinusMinus => exact .inr ⟨false, false, operand, rfl, rfl, rfl, rfl⟩
      all_goals exact .inl ⟨rfl, rfl⟩
  | empty | binary | events | literal | name | call | concat => exact .inl ⟨rfl, rfl⟩

/-! ## Folding takes its steps -/

/-- Folding from `s` to `x` and `s'` takes some steps, and its value is that of the cell that its
target has after them. -/
def Takes (target : Option String) (ss : List Step) (s : State) (x : Operand) (s' : State) : Prop :=
  s'.scope = ss.foldl bump s.scope ∧ x.slot = target.bind s.scope.lookup ∧
    ∀ slot, x.slot = some slot → x.value = readable (s'.scope.load slot)

private theorem inTurn_takes {target : NodeId → Option String} {ss : NodeId → List Step}
    {ns : List NodeId} {s s' : State} {xs : List Operand}
    (h : InTurn (fun n => Takes (target n) (ss n)) ns s xs s') :
    s'.scope = (ns.flatMap ss).foldl bump s.scope := by
  induction h with
  | nil s => rfl
  | cons first _ ih => rw [ih, first.1, List.flatMap_cons, List.foldl_append]

private theorem written_eq_foldl {target : Option String} {ss : List Step} {s s' : State}
    {x : Operand} (h : Takes target ss s x s') (up : Bool) :
    written x.slot (x.value.step up) s'.scope =
      (target.map (⟨up, ·⟩ : String → Step)).toList.foldl bump s'.scope := by
  obtain ⟨hs, hx, hv⟩ := h
  have hl : s'.scope.lookup = s.scope.lookup :=
    Scope.lookup_congr (by rw [hs, foldl_bump_levels])
  cases target with
  | none =>
    rw [hx]
    rfl
  | some name =>
    rw [Option.bind_some, ← hl] at hx
    simp only [Option.map_some, Option.toList_some, List.foldl_cons, List.foldl_nil, bump, ← hx]
    cases hslot : x.slot with
    | none => rfl
    | some slot => rw [hv slot hslot]

/-- Only a name without a select, and what stands for one, has a cell. -/
theorem result_slot {shape : Shape} (hn : ∀ ident, shape = .name ident → ident.select ≠ .none)
    (hl : ∀ operand, shape ≠ .lvalue operand none) (scope : Scope) (xs : List Operand) :
    (result scope shape xs).slot = none := by
  unfold result
  split
  case h_5 ident =>
    unfold named
    split
    · rfl
    · split
      · exact absurd ‹_› (hn ident rfl)
      · rfl
  case h_6 operand _ => exact absurd rfl (hl operand)
  case h_2 | h_4 | h_8 => rfl
  case h_1 | h_3 | h_7 => split <;> rfl

/-- The state after a form: the steps of its operands are followed by its own. -/
theorem closed_scope {c : Context} {bound : String → Bool} {budget : Nat} {n : NodeId}
    {s s' : State} {xs : List Operand} (scope : Scope)
    (h : InTurn (fun n => Takes (target? c.tree budget n) (steps c.tree bound budget n))
      (operands bound (Form.decode c.tree n).shape) s xs s') :
    (closed c (Form.decode c.tree n) scope xs s').scope =
      (steps c.tree bound (budget + 1) n).foldl bump s.scope := by
  rw [steps_succ, List.foldl_append, ← inTurn_takes h]
  rcases step?_cases bound (Form.decode c.tree n).shape with
    ⟨hn, hv⟩ | ⟨up, late, operand, hstep, hv, ho, hfo⟩
  · simp [closed, stepped, hn, Visit.step?, Visit.form, hv]
  · rw [hfo] at h
    obtain ⟨x, rfl, hx⟩ := h.one
    simpa [closed, stepped, hstep, Visit.step?, Visit.form, hv, ho] using written_eq_foldl hx up

private theorem target?_eq_none {t : Tree} {n : NodeId}
    (hn : ∀ ident, (Form.decode t n).shape = .name ident → ident.select ≠ .none)
    (hl : ∀ operand, (Form.decode t n).shape ≠ .lvalue operand none) (budget : Nat) :
    target? t (budget + 1) n = none := by
  unfold target?
  split
  case h_1 ident hi => exact if_neg (hn ident hi)
  case h_2 operand ho => exact absurd ho (hl operand)
  case h_3 => rfl

private theorem fold_takes (c : Context) (scope : Scope) (budget : Nat) (n : NodeId) (s : State)
    (hs : s.scope.levels = scope.levels) :
    Takes (target? c.tree budget n) (steps c.tree scope.binds budget n) s (fold c budget n s).1
      (fold c budget n s).2 := by
  refine fold_induction c scope (P := fun budget n s x s' =>
    Takes (target? c.tree budget n) (steps c.tree scope.binds budget n) s x s') ?_ ?_ budget n s hs
  · intro n s _
    refine ⟨?_, rfl, nofun⟩
    rw [steps_zero, warn_scope]
    rfl
  · intro budget n s xs s' _ h
    have hscope := closed_scope s.scope h
    rw [opened_scope] at hscope
    refine ⟨hscope, ?_⟩
    -- A cell is handed on by plain names and by operands that stand for them.
    by_cases hname : ∃ ident, (Form.decode c.tree n).shape = .name ident ∧ ident.select = .none
    · obtain ⟨ident, hi, hsel⟩ := hname
      have hs' : s'.scope = s.scope := by
        simpa [hi, operands, hsel, Select.bounds] using inTurn_takes h
      simp only [closed, hi, target?, hsel, if_true, stepped, step?, hs']
      cases hl : s.scope.lookup ident.name <;> simp [result, named, hl, hsel, Operand.absent]
    · by_cases hlvalue : ∃ operand, (Form.decode c.tree n).shape = .lvalue operand none
      · obtain ⟨operand, ho⟩ := hlvalue
        rw [ho] at h
        obtain ⟨x, rfl, _, hx, hv⟩ := h.one
        rw [opened_scope] at hx
        simp only [closed, ho, target?, stepped, step?, result]
        exact ⟨hx, hv⟩
      · have hn := fun ident hi hsel => hname ⟨ident, hi, hsel⟩
        have hl := fun operand ho => hlvalue ⟨operand, ho⟩
        simp [result_slot hn hl, target?_eq_none hn hl]

/-! ## Cells -/

/-- What a number of steps up and down make of a value: nothing if there are none of either, a
number of the same kind if it is a number, and nothing otherwise. -/
def Moved (ups downs : Nat) (old new : Value) : Prop :=
  (ups = 0 → downs = 0 → new = old) ∧
    match old.datum with
    | .integer i => ∃ j : Integer, new.datum = .integer j ∧ j.width = i.width ∧
        j.signed = i.signed ∧ (j.bits.toNat : Int) = (i.bits.toNat + ups - downs) % 2 ^ i.limit
    | .real _ => ∃ y, new.datum = .real y
    | .text _ | .invalid => new = old

theorem Moved.refl {v : Value} (h : v.WellFormed) : Moved 0 0 v v := by
  refine ⟨fun _ _ => rfl, ?_⟩
  split
  case h_1 i hi =>
    refine ⟨i, hi, rfl, rfl, ?_⟩
    have hlt : (i.bits.toNat : Int) < 2 ^ i.limit := by exact_mod_cast (h i hi).bits_lt
    rw [Nat.cast_zero, add_zero, sub_zero, Int.emod_eq_of_lt (by positivity) hlt]
  case h_2 x hx => exact ⟨x, hx⟩
  case h_3 | h_4 => rfl

theorem Moved.trans {ups downs ups' downs' : Nat} {u v w : Value} (h : Moved ups downs u v)
    (h' : Moved ups' downs' v w) : Moved (ups + ups') (downs + downs') u w := by
  obtain ⟨hsame, h⟩ := h
  obtain ⟨hsame', h'⟩ := h'
  refine ⟨fun hu hd => ?_, ?_⟩
  · rw [hsame' (by omega) (by omega), hsame (by omega) (by omega)]
  split at h
  case h_1 i hi =>
    obtain ⟨j, hj, hw, hs, hb⟩ := h
    simp only [hj] at h'
    obtain ⟨k, hk, hw', hs', hb'⟩ := h'
    refine ⟨k, hk, hw'.trans hw, hs'.trans hs, ?_⟩
    have hlimit : j.limit = i.limit := by simp only [Integer.limit, hw]
    rw [hb', hb, hlimit]
    refine (((Int.mod_modEq _ _).add_right _).sub_right _).trans ?_
    rw [Int.ModEq]
    congr 1
    push_cast
    ring
  case h_2 x hx =>
    obtain ⟨y, hy⟩ := h
    simpa only [hy] using h'
  case h_3 hu | h_4 hu =>
    subst h
    simpa only [hu] using h'

theorem Moved.wellFormed {ups downs : Nat} {u v : Value} (h : Moved ups downs u v)
    (hu : u.WellFormed) : v.WellFormed := by
  have h := h.2
  split at h
  case h_1 i hi =>
    obtain ⟨j, hj, hw, hs, hb⟩ := h
    have hlimit : j.limit = i.limit := by simp only [Integer.limit, hw]
    intro k hk
    obtain rfl : j = k := Datum.integer.inj (hj ▸ hk)
    refine ⟨hw ▸ (hu i hi).width_le, ?_, fun hsigned => hw ▸ (hu i hi).unsized (hs ▸ hsigned)⟩
    have hlt : (j.bits.toNat : Int) < 2 ^ i.limit := hb ▸ Int.emod_lt_of_pos _ (by positivity)
    rw [hlimit]
    exact_mod_cast hlt
  case h_2 =>
    obtain ⟨y, hy⟩ := h
    intro k hk
    rw [hy] at hk
    cases hk
  case h_3 | h_4 => exact h ▸ hu

private theorem toNat_clipped_step {i : Integer} (h : i.WellFormed) (up : Bool) :
    ((Integer.clipped (if up then i.word + 1 else i.word - 1) i.width i.signed).bits.toNat : Int) =
      (i.bits.toNat + (if up then 1 else 0 : Nat) - (if up then 0 else 1 : Nat)) %
        2 ^ i.limit := by
  have hdvd : 2 ^ i.limit ∣ 2 ^ 64 := Nat.pow_dvd_pow 2 h.limit_le
  rw [h.word_eq, Integer.clipped, Word.toNat_clip h.width_le]
  change ((_ % 2 ^ i.limit : Nat) : Int) = _
  cases up with
  | true =>
    rw [if_pos rfl, BitVec.toNat_add, Nat.mod_mod_of_dvd _ hdvd]
    simp
  | false =>
    rw [if_neg (by simp), BitVec.toNat_sub, Nat.mod_mod_of_dvd _ hdvd]
    obtain ⟨k, hk⟩ := hdvd
    have hsum : ((2 ^ 64 - (1 : Word).toNat + i.bits.toNat : Nat) : Int) =
        i.bits.toNat - 1 + 2 ^ i.limit * k := by
      have hk' : ((2 ^ 64 : Nat) : Int) = 2 ^ i.limit * k := by exact_mod_cast hk
      rw [← hk']
      simp
      omega
    rw [Int.natCast_emod, hsum]
    simp

/-- A value that was read from a cell, stepped, and written back if it is still valid. -/
theorem moved_step {v : Value} (h : v.WellFormed) (up : Bool) :
    let w := (readable v.asLvalue).step up
    Moved (if up then 1 else 0) (if up then 0 else 1) v (if w.isValid then w.asRvalue else v) := by
  intro w
  refine ⟨fun hu hd => by cases up <;> simp at hu hd, ?_⟩
  split
  case h_1 i hi =>
    have hw : w.datum = .integer (Integer.clipped (if up then i.word + 1 else i.word - 1) i.width
        i.signed) := by
      simp [w, readable, Value.asLvalue, hi, Value.plus, Value.isValid, Value.asRvalue, Value.step,
        Value.ofInteger]
    have hvalid : w.isValid = true := by simp [Value.isValid, hw]
    rw [if_pos hvalid]
    exact ⟨_, hw, rfl, rfl, toNat_clipped_step (h i hi) up⟩
  case h_2 x hx =>
    have hw : w.datum = .real (if up then x + 1.0 else x - 1.0) := by
      simp [w, readable, Value.asLvalue, hx, Value.plus, Value.isValid, Value.asRvalue, Value.step,
        Value.real]
    have hvalid : w.isValid = true := by simp [Value.isValid, hw]
    rw [if_pos hvalid]
    exact ⟨_, hw⟩
  case h_3 x hx =>
    have hw : w = .invalid := by simp [w, readable, Value.asLvalue, hx, Value.step]
    simp [hw]
  case h_4 hx =>
    have hw : w = .invalid := by
      simp [w, readable, Value.asLvalue, hx, Value.plus, Value.isValid, Value.step, Value.invalid]
    simp [hw]

/-- How often some steps in one direction go to a cell. -/
def hits (scope : Scope) (up : Bool) (i : Nat) (ss : List Step) : Nat :=
  ss.countP fun s => s.up == up && scope.lookup s.name == some i

private theorem hits_cons (scope : Scope) (up : Bool) (i : Nat) (s : Step) (ss : List Step) :
    hits scope up i (s :: ss) = hits scope up i [s] + hits scope up i ss := by
  rw [hits, List.countP_cons, add_comm]
  simp [hits, List.countP_cons]

private theorem hits_congr {scope scope' : Scope} (h : scope'.levels = scope.levels) :
    hits scope' = hits scope := by
  funext up i ss
  simp only [hits, Scope.lookup_congr h]

private theorem written_cell {scope : Scope} {i : Nat} {old : Value}
    (h : scope.cells[i]? = some old) (slot : Nat) (v : Value) :
    (written (some slot) v scope).cells[i]? =
      some (if slot = i then if v.isValid then v.asRvalue else old else old) := by
  have hi : i < scope.cells.size := (Array.getElem?_eq_some_iff.mp h).1
  cases hv : v.isValid with
  | false => simpa [written, hv] using h
  | true =>
    simp only [written, hv, if_true, Scope.store, Array.getElem?_setIfInBounds]
    split
    case isTrue hs => simp [hs, hi]
    case isFalse => exact h

private theorem bump_cell {scope : Scope} {i : Nat} {old : Value} (h : scope.cells[i]? = some old)
    (hw : old.WellFormed) (s : Step) :
    ∃ new, (bump scope s).cells[i]? = some new ∧
      Moved (hits scope true i [s]) (hits scope false i [s]) old new := by
  by_cases hl : scope.lookup s.name = some i
  · have hload : scope.load i = old.asLvalue := by simp [Scope.load, h]
    refine ⟨_, by rw [bump, hl, written_cell h, if_pos rfl, hload], ?_⟩
    have hup : hits scope true i [s] = if s.up then 1 else 0 := by
      cases hs : s.up <;> simp [hits, hl, hs]
    have hdown : hits scope false i [s] = if s.up then 0 else 1 := by
      cases hs : s.up <;> simp [hits, hl, hs]
    rw [hup, hdown]
    exact moved_step hw s.up
  · have hhits (up : Bool) : hits scope up i [s] = 0 := by simp [hits, hl]
    rw [hhits, hhits]
    refine ⟨old, ?_, .refl hw⟩
    unfold bump
    split
    case h_1 slot hs =>
      have hne : slot ≠ i := fun he => hl (he ▸ hs)
      rw [written_cell h, if_neg hne]
    case h_2 => exact h

private theorem foldl_bump_cell (ss : List Step) {scope : Scope} {i : Nat} {old : Value}
    (h : scope.cells[i]? = some old) (hw : old.WellFormed) :
    ∃ new, (ss.foldl bump scope).cells[i]? = some new ∧
      Moved (hits scope true i ss) (hits scope false i ss) old new := by
  induction ss generalizing scope old with
  | nil => exact ⟨old, h, .refl hw⟩
  | cons s ss ih =>
    obtain ⟨mid, hm, hmoved⟩ := bump_cell h hw s
    obtain ⟨new, hn, hmoved'⟩ := ih hm (hmoved.wellFormed hw)
    rw [hits_congr (bump_levels scope s)] at hmoved'
    rw [hits_cons scope true i s ss, hits_cons scope false i s ss]
    exact ⟨new, hn, hmoved.trans hmoved'⟩

@[simp] private theorem bump_size (scope : Scope) (s : Step) :
    (bump scope s).cells.size = scope.cells.size := by
  unfold bump
  split
  · exact written_size _ _ _
  · rfl

@[simp] private theorem foldl_bump_size (ss : List Step) (scope : Scope) :
    (ss.foldl bump scope).cells.size = scope.cells.size := by
  induction ss generalizing scope with
  | nil => rfl
  | cons s ss ih => rw [List.foldl_cons, ih, bump_size]

/-! ## Counting -/

/-- A step goes to one cell at most. -/
theorem sum_hits_le (scope : Scope) (size : Nat) (ss : List Step) :
    ∑ i ∈ Finset.range size, (hits scope true i ss + hits scope false i ss) ≤ ss.length := by
  induction ss with
  | nil => simp [hits]
  | cons s ss ih =>
    have hone (i : Nat) : hits scope true i (s :: ss) + hits scope false i (s :: ss) =
        (if scope.lookup s.name = some i then 1 else 0) +
          (hits scope true i ss + hits scope false i ss) := by
      rw [hits_cons scope true i s ss, hits_cons scope false i s ss]
      cases hs : s.up <;> by_cases hl : scope.lookup s.name = some i <;>
        simp [hits, hs, hl] <;> omega
    have hle : ∑ i ∈ Finset.range size, (if scope.lookup s.name = some i then 1 else 0) ≤ 1 := by
      cases scope.lookup s.name with
      | none => simp
      | some slot =>
        simp only [Option.some.injEq, Finset.sum_ite_eq]
        split <;> simp
    rw [Finset.sum_congr rfl fun i _ => hone i, Finset.sum_add_distrib, List.length_cons]
    omega

private theorem operands_sublist (bound : String → Bool) (shape : Shape) :
    (operands bound shape).Sublist shape.operands := by
  cases shape with
  | unary op operand =>
    simp only [operands, Shape.operands]
    split <;> simp
  | binary left op right =>
    simp only [operands, Shape.operands]
    split <;> simp
  | name ident =>
    simp only [operands, Shape.operands]
    split <;> simp
  | lvalue operand op => exact .refl _
  | empty | events | literal | call | concat => exact List.nil_sublist _

/-- Whether a node is an operator that steps. -/
def isStep (t : Tree) (n : NodeId) : Bool := (t.tag n).stepsUp?.isSome

/-- A visit that takes a step has an operator for it. -/
theorem length_step?_le {t : Tree} {k : Visit} {ops : List NodeId}
    (h : ops.map t.tag = (k.form t).shape.stepTag?.toList) :
    (k.step? t).toList.length ≤ ops.countP (isStep t) := by
  cases hs : k.step? t with
  | none => simp
  | some s =>
    obtain ⟨up, hup⟩ : ∃ up, (k.form t).shape.stepTag?.bind Tag.stepsUp? = some up := by
      unfold Visit.step? at hs
      split at hs
      · exact ⟨_, ‹_›⟩
      · cases hs
    obtain ⟨tag, htag, hup⟩ := Option.bind_eq_some_iff.mp hup
    rw [htag, Option.toList_some, List.map_eq_singleton_iff] at h
    obtain ⟨op, rfl, rfl⟩ := h
    simp [isStep, hup]

/-- Every step is that of another operator below the node. -/
theorem length_steps_le {t : Tree} (h : t.Linked) (bound : String → Bool) (budget : Nat)
    (n : NodeId) : (steps t bound budget n).length ≤ (t.subtree n).countP (isStep t) := by
  induction budget generalizing n with
  | zero => simp
  | succ budget ih =>
    obtain ⟨ops, hops, hsub⟩ := Form.decode_subperm h n
    have hown := length_step?_le (k := ⟨budget + 1, n⟩) hops
    have hrest (ns : List NodeId) : (ns.flatMap (steps t bound budget)).length ≤
        (ns.flatMap t.subtree).countP (isStep t) := by
      induction ns with
      | nil => simp
      | cons m ns ihn =>
        rw [List.flatMap_cons, List.flatMap_cons, List.length_append, List.countP_append]
        exact Nat.add_le_add (ih m) ihn
    have hshape := ((operands_sublist bound (Form.decode t n).shape).flatMap t.subtree).countP_le
      (p := isStep t)
    have hcount := hsub.countP_le (isStep t)
    have hoperands := hrest (operands bound (Form.decode t n).shape)
    rw [List.countP_append] at hcount
    rw [steps_succ, List.length_append]
    omega

/-- The operators below a node that step. -/
def stepNodes (t : Tree) (n : NodeId) : Finset NodeId :=
  (t.subtree n).toFinset.filter fun m =>
    t.tag m = .incDecPlusPlus ∨ t.tag m = .incDecMinusMinus

private theorem card_stepNodes {t : Tree} (h : t.Linked) (n : NodeId) :
    (stepNodes t n).card = (t.subtree n).countP (isStep t) := by
  have hstep (m : NodeId) : isStep t m = true ↔
      t.tag m = .incDecPlusPlus ∨ t.tag m = .incDecMinusMinus := by
    unfold isStep
    cases t.tag m <;> simp [Tag.stepsUp?]
  rw [List.countP_eq_length_filter, ← List.toFinset_card_of_nodup ((h.nodup_subtree n).filter _),
    List.toFinset_filter, stepNodes]
  simp only [hstep]

/-- An evaluation binds no names and makes no cells.  A cell is moved by as many steps up and down
as the evaluation visits for names that find it, which are at most as many as there are operators
that step below the node; and a cell that no stepped name finds is not moved. -/
theorem evaluate_effects (c : Context) (n : NodeId) (scope : Scope) (ht : c.tree.Built)
    (hv : ∀ v ∈ scope.cells, v.Made) :
    let final := (evaluate c n scope).scope
    let taken := steps c.tree scope.binds c.limit n
    let ups := fun i => hits scope true i taken
    let downs := fun i => hits scope false i taken
    final.levels = scope.levels ∧ final.cells.size = scope.cells.size ∧
      ∑ i ∈ Finset.range scope.cells.size, (ups i + downs i) ≤ (stepNodes c.tree n).card ∧
      (∀ i old, scope.cells[i]? = some old →
        ∃ new, final.cells[i]? = some new ∧ Moved (ups i) (downs i) old new) ∧
      ∀ i, (∀ name, scope.lookup name = some i → ∀ s ∈ taken, s.name ≠ name) →
        ups i = 0 ∧ downs i = 0 := by
  intro final taken ups downs
  have hfinal : final = taken.foldl bump scope := (fold_takes c scope c.limit n { scope } rfl).1
  refine ⟨?_, ?_, ?_, fun i old hi => ?_, fun i hi => ?_⟩
  · rw [hfinal, foldl_bump_levels]
  · rw [hfinal, foldl_bump_size]
  · rw [card_stepNodes ht.linked]
    exact (sum_hits_le scope _ taken).trans (length_steps_le ht.linked scope.binds c.limit n)
  · rw [hfinal]
    exact foldl_bump_cell taken hi (hv old (Array.mem_of_getElem? hi)).wellFormed
  · have hnone (up : Bool) : hits scope up i taken = 0 := by
      refine List.countP_eq_zero.mpr fun s hs => ?_
      have hne : scope.lookup s.name ≠ some i := fun hl => hi s.name hl s hs rfl
      simp [hne]
    exact ⟨hnone true, hnone false⟩

/-- `x++ + y--`, with node 10 for the whole. -/
def sumOfSteps : Tree :=
  let t : Tree := ⟨"a.sv", #[]⟩
  let t := ((t.leaf .stringConst "x").2.node .variableLvalue [1]).tree
  let t := ((t.leaf .incDecPlusPlus "").2.node .expression [2, 3]).tree
  let t := ((t.leaf .stringConst "y").2.node .variableLvalue [5]).tree
  let t := ((t.leaf .incDecMinusMinus "").2.node .expression [6, 7]).tree
  ((t.leaf .binOpPlus "").2.node .expression [4, 9, 8]).tree

private theorem sumOfSteps_built : sumOfSteps.Built := by
  refine .node (.leaf ?_ _ _) _ _
  refine .node (.leaf (.node (.leaf ?_ _ _) _ _) _ _) _ _
  exact .node (.leaf (.node (.leaf (.empty _) _ _) _ _) _ _) _ _

/-- `x` is a nibble with all bits set, and `y` is zero. -/
def nibbleScope : Scope := (Scope.empty.enter.set "x" (.sized 15 4)).set "y" (.signed 0)

theorem evaluate_effects_sumOfSteps :
    (sumOfSteps.Built ∧ ∀ v ∈ nibbleScope.cells, v.Made) ∧
    let final := (evaluate ⟨sumOfSteps, false, 10⟩ 10 nibbleScope).scope
    final.levels = nibbleScope.levels ∧ final.cells.size = nibbleScope.cells.size ∧
      ∃ x y, final.cells[0]? = some x ∧ Moved 1 0 (.sized 15 4) x ∧
        final.cells[1]? = some y ∧ Moved 0 1 (.signed 0) y := by
  have hcells : nibbleScope.cells = #[.sized 15 4, .signed 0] := rfl
  have hv : ∀ v ∈ nibbleScope.cells, v.Made := by
    intro v hv
    simp only [hcells, List.mem_toArray, List.mem_cons, List.not_mem_nil, or_false] at hv
    rcases hv with rfl | rfl
    · exact .sized 15 4
    · exact .signed 0
  refine ⟨⟨sumOfSteps_built, hv⟩, ?_⟩
  obtain ⟨hl, hs, _, hc, _⟩ :=
    evaluate_effects ⟨sumOfSteps, false, 10⟩ 10 nibbleScope sumOfSteps_built hv
  have htaken : steps sumOfSteps nibbleScope.binds 10 10 = [⟨true, "x"⟩, ⟨false, "y"⟩] := by
    decide +kernel
  simp only [htaken] at hc
  obtain ⟨x, hx, hmx⟩ := hc 0 (.sized 15 4) (by simp [hcells])
  obtain ⟨y, hy, hmy⟩ := hc 1 (.signed 0) (by simp [hcells])
  exact ⟨hl, hs, x, y, hx, hmx, hy, hmy⟩

end Fold

end HdlExpr
