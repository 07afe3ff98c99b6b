import Mathlib.Data.List.Forall2
import HdlExpr.Proofs.Fold.Visits

/-!
# Matching scopes

Scopes match when names are found in cells that belong together and hold the same.  Which cells
these are makes no difference to an evaluation: over matching scopes it gives the same value and
the same reports, and it stores the same values to cells that belong together.
-/

namespace HdlExpr

namespace Scope

/-- The names are the same, and `R` tells which cells belong together. -/
structure Matches (R : Nat → Nat → Prop) (a b : Scope) : Prop where
  lookup (name : String) : Option.Rel R (a.lookup name) (b.lookup name)
  names : a.names = b.names
  cells {i j : Nat} (h : R i j) : a.cells[i]? = b.cells[j]?
  unique {i j i' j' : Nat} (h : R i j) (h' : R i' j') : i = i' ↔ j = j'

/-- The same values are stored to cells that belong together, one after the other. -/
inductive Stores (R : Nat → Nat → Prop) (a b : Scope) : Scope → Scope → Prop
  | done : Stores R a b a b
  | store {a' b' : Scope} {i j : Nat} (h : Stores R a b a' b') (hr : R i j) (v : Value) :
    Stores R a b (a'.store i v) (b'.store j v)

variable {R : Nat → Nat → Prop} {a b a' b' : Scope}

private theorem getElem?_store (s : Scope) (i j : Nat) (v : Value) :
    (s.store i v).cells[j]? =
      if j = i then (s.cells[i]?).map fun _ => v.asRvalue else s.cells[j]? := by
  rw [store, Array.getElem?_setIfInBounds]
  by_cases hj : i = j
  · subst hj
    by_cases hlt : i < s.cells.size <;> simp [hlt]
  · simp [hj, Ne.symm hj]

theorem Matches.store (h : Matches R a b) {i j : Nat} (hr : R i j) (v : Value) :
    Matches R (a.store i v) (b.store j v) where
  lookup := h.lookup
  names := h.names
  cells := by
    intro i' j' hr'
    rw [getElem?_store, getElem?_store, h.cells hr, h.cells hr']
    simp only [h.unique hr' hr]
  unique := h.unique

theorem Matches.stores (h : Matches R a b) (hs : Stores R a b a' b') : Matches R a' b' := by
  induction hs with
  | done => exact h
  | store _ hr v ih => exact ih.store hr v

theorem Matches.binds (h : Matches R a b) : a.binds = b.binds := by
  funext name
  have hl := h.lookup name
  rw [Scope.binds, Scope.binds]
  generalize a.lookup name = i at hl
  generalize b.lookup name = j at hl
  cases hl with
  | some => rfl
  | none => rfl

/-- A scope matches itself. -/
theorem matches_self (a : Scope) :
    Matches (fun i j => i = j ∧ ∃ name, a.lookup name = some i) a a where
  lookup name := by
    cases hl : a.lookup name with
    | none => exact .none
    | some i => exact .some ⟨rfl, name, hl⟩
  names := rfl
  cells h := by rw [h.1]
  unique h h' := by rw [h.1, h'.1]

end Scope

namespace Fold

open Run Scope

variable {R : Nat → Nat → Prop} {a b : Scope}

/-- The same value, from cells that belong together. -/
structure Operand.Matches (R : Nat → Nat → Prop) (x y : Operand) : Prop where
  value : x.value = y.value
  slot : Option.Rel R x.slot y.slot

/-- Evaluations that started over matching scopes and have done the same so far. -/
structure Alike (R : Nat → Nat → Prop) (a b : Scope) (s t : State) : Prop where
  scope : Stores R a b s.scope t.scope
  reports : s.reports = t.reports
  warned : s.warned = t.warned

private theorem matches_plain (v : Value) : Operand.Matches R ⟨v, none⟩ ⟨v, none⟩ := ⟨rfl, .none⟩

private theorem map_value_eq {xs ys : List Operand}
    (h : List.Forall₂ (Operand.Matches R) xs ys) : xs.map (·.value) = ys.map (·.value) := by
  induction h with
  | nil => rfl
  | cons hx _ ih => rw [List.map_cons, List.map_cons, hx.value, ih]

private theorem named_matches (h : Scope.Matches R a b) (ident : Ident) {xs ys : List Operand}
    (hxy : List.Forall₂ (Operand.Matches R) xs ys) :
    Operand.Matches R (named a ident xs) (named b ident ys) := by
  have hl := h.lookup ident.name
  unfold named
  generalize a.lookup ident.name = i at hl
  generalize b.lookup ident.name = j at hl
  cases hl with
  | none => exact matches_plain _
  | @some i j hr =>
    have hload : a.load i = b.load j := by rw [Scope.load, Scope.load, h.cells hr]
    simp only [hload, map_value_eq hxy]
    split
    · exact ⟨rfl, .some hr⟩
    · exact matches_plain _

private theorem result_matches (h : Scope.Matches R a b) (shape : Shape) {xs ys : List Operand}
    (hxy : List.Forall₂ (Operand.Matches R) xs ys) :
    Operand.Matches R (result a shape xs) (result b shape ys) := by
  cases shape with
  | empty | events | call | concat | literal => exact matches_plain _
  | name ident => exact named_matches h ident hxy
  | unary op operand =>
    rcases hxy with _ | ⟨hx, _ | ⟨hy, hrest⟩⟩
    · exact matches_plain _
    · simp only [result, hx.value]
      split <;> exact matches_plain _
    · exact matches_plain _
  | binary left op right =>
    rcases hxy with _ | ⟨hx, _ | ⟨hy, _ | ⟨hz, hrest⟩⟩⟩
    · exact matches_plain _
    · simp only [result, hx.value]
      exact matches_plain _
    · simp only [result, hx.value, hy.value]
      split <;> exact matches_plain _
    · exact matches_plain _
  | lvalue operand op =>
    rcases hxy with _ | ⟨hx, _ | ⟨hy, hrest⟩⟩
    · cases op <;> exact matches_plain _
    · cases op with
      | none => exact hx
      | some op =>
        simp only [result, hx.value]
        split <;> exact matches_plain _
    · cases op <;> exact matches_plain _

private theorem written_stores {a' b' : Scope} (h : Stores R a b a' b') {i j : Option Nat}
    (hr : Option.Rel R i j) (v : Value) : Stores R a b (written i v a') (written j v b') := by
  cases hr with
  | none => exact h
  | some hr =>
    simp only [written]
    split
    · exact h.store hr v
    · exact h

private theorem stepped_stores {a' b' : Scope} (h : Stores R a b a' b') (shape : Shape)
    {xs ys : List Operand} (hxy : List.Forall₂ (Operand.Matches R) xs ys) :
    Stores R a b (stepped shape xs a') (stepped shape ys b') := by
  unfold stepped
  cases step? shape with
  | none => exact h
  | some step =>
    rcases hxy with _ | ⟨hx, _ | ⟨hy, hrest⟩⟩
    · exact h
    · simp only [hx.value]
      exact written_stores h hx.slot _
    · exact h

section Alike

variable {s t : State} (h : Alike R a b s t) (hm : Scope.Matches R a b)

include h

private theorem Alike.warn (c : Context) (n : NodeId) :
    Alike R a b (warn c n s).2 (warn c n t).2 := by
  obtain ⟨scope, reports, warned⟩ := s
  obtain ⟨scope', reports', warned'⟩ := t
  obtain ⟨hscope, hreports, hwarned⟩ := h
  simp only at hscope hreports hwarned
  subst hreports hwarned
  cases warned with
  | false => exact ⟨hscope, rfl, rfl⟩
  | true => exact ⟨hscope, rfl, rfl⟩

private theorem Alike.closed (c : Context) (form : Form) {scope scope' : Scope}
    (hscope : Scope.Matches R scope scope') {xs ys : List Operand}
    (hxy : List.Forall₂ (Operand.Matches R) xs ys) :
    Alike R a b (closed c form scope xs s) (closed c form scope' ys t) where
  scope := stepped_stores h.scope form.shape hxy
  reports := by
    rw [Fold.closed, Fold.closed, h.reports, (result_matches hscope form.shape hxy).value]
  warned := h.warned

include hm

/-- What is reported of a name without a cell are the names in sight, which are the same. -/
private theorem Alike.unresolved (c : Context) (site : NodeId) (name : String) :
    Alike R a b (unresolved c site name s).2 (unresolved c site name t).2 := by
  have hnames := (hm.stores h.scope).names
  obtain ⟨scope, reports, warned⟩ := s
  obtain ⟨scope', reports', warned'⟩ := t
  obtain ⟨hscope, hreports, hwarned⟩ := h
  simp only at hscope hreports hwarned hnames
  subst hreports hwarned
  cases hc : c.mute with
  | true =>
    simp only [Fold.unresolved, hc]
    exact ⟨hscope, rfl, rfl⟩
  | false =>
    refine ⟨?_, ?_, ?_⟩
    · simpa [Fold.unresolved, hc, report] using hscope
    · simp [Fold.unresolved, hc, report, hnames]
    · simp [Fold.unresolved, hc, report]

private theorem Alike.opened (c : Context) (form : Form) :
    Alike R a b (opened c form s) (opened c form t) := by
  unfold Fold.opened
  rw [(hm.stores h.scope).binds]
  split
  · split
    · exact h
    · exact h.unresolved hm c form.site _
  · exact h

end Alike

private theorem fold_matches (hm : Scope.Matches R a b) (c : Context) (budget : Nat) (n : NodeId)
    {s t : State} (h : Alike R a b s t) :
    Operand.Matches R (fold c budget n s).1 (fold c budget n t).1 ∧
      Alike R a b (fold c budget n s).2 (fold c budget n t).2 := by
  induction budget generalizing n s t with
  | zero => exact ⟨matches_plain _, h.warn c n⟩
  | succ budget ih =>
    have hscope := hm.stores h.scope
    obtain ⟨hxy, hrun⟩ := mapM_related (Alike R a b) (Operand.Matches R) (fold c budget)
      (fold c budget) (fun m _ _ hst => ih m hst)
      (operands s.scope.binds (Form.decode c.tree n).shape) _ _
      (h.opened hm c (Form.decode c.tree n))
    rw [fold_succ, fold_succ, ← hscope.binds]
    exact ⟨result_matches hscope _ hxy, hrun.closed c _ hscope hxy⟩

theorem evaluate_matches (hm : Scope.Matches R a b) (c : Context) (n : NodeId) :
    (evaluate c n a).value = (evaluate c n b).value ∧
      (evaluate c n a).reports = (evaluate c n b).reports ∧
      Stores R a b (evaluate c n a).scope (evaluate c n b).scope := by
  have hstart : Alike R a b { scope := a } { scope := b } := ⟨.done, rfl, rfl⟩
  obtain ⟨hx, h⟩ := fold_matches hm c c.limit n hstart
  exact ⟨hx.value, congrArg Array.toList h.reports, h.scope⟩

end Fold

end HdlExpr
