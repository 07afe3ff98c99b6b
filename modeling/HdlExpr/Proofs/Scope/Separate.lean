import HdlExpr.Proofs.Scope.Copy

/-!
# Chains with different tables

A scope that is adopted gets a table of its own, and so does a snapshot.  What is written to one
table is not seen through chains that have another one.  So whoever works on a chain of its own
leaves the others as they are.
-/

namespace HdlExpr

/-- Copying leaves nothing over where there is no level. -/
private theorem Scope.copy_nil {s : Scope} (h : s.levels = []) : s.copy = .empty := by
  rw [copy, h]
  rfl

namespace ScopeGraph

variable {g g' : ScopeGraph} {s t : Nat}

/-! ## Views -/

private theorem mem_chain_le (h : g.Layered) (hp : t ∈ g.chain s) : t ≤ s := by
  induction s using Nat.strongRecOn with
  | ind s ih =>
    cases ho : g.outline s with
    | none => simp [chain_eq_outline, ho] at hp
    | some o =>
      obtain ⟨parent, table⟩ := o
      rw [h.chain_eq_cons ho, List.mem_cons] at hp
      obtain rfl | hp := hp
      · exact Nat.le_refl _
      · cases parent with
        | none => cases hp
        | some p =>
          have hlt := (h.parent ho).1
          exact Nat.le_trans (ih p hlt hp) (Nat.le_of_lt hlt)

theorem Layered.tableOf_lt (h : g.Layered) (hs : s < g.frames.size) :
    g.tableOf s < g.tables.size := by
  have ho := outline_of_frames (Array.getElem?_eq_getElem hs)
  rw [tableOf_of_outline ho]
  exact h.table_lt ho

/-- Views are made of the levels of a chain and the cells of its table. -/
private theorem view_congr (hchain : g'.chain s = g.chain s)
    (hlevel : ∀ p ∈ g.chain s, g'.levelOf p = g.levelOf p) (htable : g'.tableOf s = g.tableOf s)
    (hcells : g'.tables[g.tableOf s]? = g.tables[g.tableOf s]?) : g'.view s = g.view s := by
  rw [view, view, levels_eq_map, levels_eq_map, hchain, List.map_congr_left hlevel, htable, hcells]

theorem Grows.view (hg : Grows g g') (h : g.Layered) (hs : s < g.frames.size) :
    g'.view s = g.view s := by
  refine view_congr (chain_congr fun t ht => hg.outline (by omega)) (fun p hp => ?_)
    (tableOf_congr (hg.outline hs)) (hg.tables (h.tableOf_lt hs))
  have hle := mem_chain_le h hp
  exact hg.levelOf (by omega)

/-- What is taken over by a scope is not seen through another table. -/
theorem view_update_of_ne (h : g.Layered) (hs : s < g.frames.size)
    (hne : g.tableOf s ≠ g.tableOf t) (scope : Scope) :
    (g.update s scope).view t = g.view t := by
  have ho := outline_update g s scope
  refine view_congr (chain_congr fun p _ => congrFun ho p) (fun p hp => ?_)
    (tableOf_congr (congrFun ho t)) ?_
  · rw [levelOf_update (Array.getElem?_eq_getElem hs), if_neg]
    rintro rfl
    exact hne (h.tableOf_of_mem_chain hp)
  · rw [update, Array.getElem?_setIfInBounds, if_neg hne]

/-- A scope shows what it took over, where no level was added. -/
theorem view_update_self (h : g.Layered) (hs : s < g.frames.size) {scope : Scope}
    (hlevels : scope.levels = (g.view s).levels) : (g.update s scope).view s = scope := by
  have ho := outline_update g s scope
  have hframe := Array.getElem?_eq_getElem hs
  have hlevel (p : Nat) : (g.update s scope).levelOf p = g.levelOf p := by
    rw [levelOf_update hframe]
    split
    case isTrue hp =>
      rw [hlevels, hp, view, levels, hframe, levelOf, hframe]
      rfl
    case isFalse => rfl
  have hcells : (g.update s scope).tables[g.tableOf s]? = some scope.cells := by
    simp [update, h.tableOf_lt hs]
  rw [view, levels_eq_map, chain_congr fun p _ => congrFun ho p, tableOf_congr (congrFun ho s),
    hcells, funext hlevel, ← levels_eq_map]
  exact congrArg (Scope.mk · scope.cells) hlevels.symm

/-- A scope that was adopted looks as before. -/
theorem view?_adopt {scope : Scope} (h : scope.levels = [] → scope = .empty) :
    (g.adopt scope).2.view? (g.adopt scope).1 = scope := by
  rw [adopt_fst]
  cases hn : scope.levels.length with
  | zero => exact (h (List.length_eq_zero_iff.mp hn)).symm
  | succ n =>
    have hlt : n < scope.levels.length := by omega
    have hzero : scope.levels.length - 1 - n = 0 := by omega
    have hcells : (g.adopt scope).2.tables[g.tables.size]? = some scope.cells :=
      Array.getElem?_push_size
    rw [last?, view?, Option.map_some, Option.getD_some, view, levels_adopt g scope hlt, hzero,
      tableOf_of_outline (outline_adopt g scope hlt), hcells]
    rfl

/-! ## Chains of one's own -/

/-- There is such a scope, if any is meant. -/
def Has (g : ScopeGraph) (s : Option Nat) : Prop := ∀ t ∈ s, t < g.frames.size

/-- Two scopes have different tables, if both are meant. -/
def Separate (g : ScopeGraph) (s s' : Option Nat) : Prop :=
  ∀ t ∈ s, ∀ t' ∈ s', g.tableOf t ≠ g.tableOf t'

@[simp] theorem has_none (g : ScopeGraph) : g.Has none := nofun

@[simp] theorem none_separate (g : ScopeGraph) (s : Option Nat) : g.Separate none s := nofun

theorem Separate.symm {s s' : Option Nat} (h : g.Separate s s') : g.Separate s' s :=
  fun t ht t' ht' he => h t' ht' t ht he.symm

/-- What whoever had the scope `s` and has `s'` now did to the chains of others: they stay, they
stay apart from each other and from this one, and they look as before. -/
structure Moves (g g' : ScopeGraph) (s s' : Option Nat) : Prop where
  layered : g'.Layered
  has {t : Option Nat} (ht : g.Has t) : g'.Has t
  apart {t t' : Option Nat} (ht : g.Has t) (ht' : g.Has t') (h : g.Separate t t') : g'.Separate t t'
  view {t : Option Nat} (ht : g.Has t) (h : g.Separate s t) : g'.view? t = g.view? t
  own : g'.Has s'
  own_apart {t : Option Nat} (ht : g.Has t) (h : g.Separate s t) : g'.Separate s' t

theorem Moves.refl (h : g.Layered) {s : Option Nat} (hs : g.Has s) : Moves g g s s :=
  ⟨h, id, fun _ _ ha => ha, fun _ _ => rfl, hs, fun _ ha => ha⟩

theorem Moves.leave {s s' : Option Nat} (h : Moves g g' s s') : Moves g g' s none :=
  ⟨h.layered, h.has, h.apart, h.view, has_none g', fun _ _ => none_separate g' _⟩

/-- Taking over what happened to the scope of one's own. -/
theorem Layered.moves_update? (h : g.Layered) {s : Option Nat} (hs : g.Has s) (scope : Scope) :
    Moves g (g.update? s scope) s s := by
  cases s with
  | none => exact .refl h hs
  | some s =>
    have hlt := hs s rfl
    have ho := outline_update g s scope
    have htable (t : Nat) : (g.update s scope).tableOf t = g.tableOf t :=
      tableOf_congr (congrFun ho t)
    have hhas {t : Option Nat} (ht : g.Has t) : (g.update s scope).Has t :=
      fun x hx => Nat.lt_of_lt_of_eq (ht x hx) (frames_size_of_outline ho).symm
    have hapart {t t' : Option Nat} (ha : g.Separate t t') : (g.update s scope).Separate t t' := by
      intro x hx y hy
      rw [htable, htable]
      exact ha x hx y hy
    refine ⟨h.of_outline ho (tables_size_update g s scope), hhas, fun _ _ => hapart, ?_, hhas hs,
      fun _ => hapart⟩
    intro t ht ha
    cases t with
    | none => rfl
    | some t => exact view_update_of_ne h hlt (ha s rfl t rfl) scope

theorem view?_update?_self (h : g.Layered) {s : Option Nat} (hs : g.Has s) {scope : Scope}
    (hlevels : scope.levels = (g.view? s).levels)
    (hsize : scope.cells.size = (g.view? s).cells.size) :
    (g.update? s scope).view? s = scope := by
  cases s with
  | some s => exact view_update_self h (hs s rfl) hlevels
  | none =>
    obtain ⟨levels, cells⟩ := scope
    obtain rfl : cells = #[] := Array.eq_empty_of_size_eq_zero hsize
    exact congrArg (Scope.mk · #[]) hlevels.symm

/-- Adopting a scope of one's own. -/
theorem Layered.moves_adopt (h : g.Layered) (scope : Scope) :
    Moves g (g.adopt scope).2 none (g.adopt scope).1 := by
  have hg := adopt_grows g scope
  have htable {t : Nat} (ht : t < g.frames.size) : (g.adopt scope).2.tableOf t = g.tableOf t :=
    tableOf_congr (hg.outline ht)
  have hnew (t : Nat) (ht : t ∈ (g.adopt scope).1) :
      t < (g.adopt scope).2.frames.size ∧ (g.adopt scope).2.tableOf t = g.tables.size := by
    rw [adopt_fst] at ht
    cases hn : scope.levels.length with
    | zero => simp [hn, last?] at ht
    | succ n =>
      obtain rfl : g.frames.size + n = t := by simpa [hn, last?] using ht
      have hlt : n < scope.levels.length := by omega
      refine ⟨?_, tableOf_of_outline (outline_adopt g scope hlt)⟩
      rw [frames_size_adopt]
      omega
  refine ⟨h.adopt scope, ?_, ?_, ?_, fun t ht => (hnew t ht).1, ?_⟩
  · intro t ht x hx
    rw [frames_size_adopt]
    exact Nat.lt_of_lt_of_le (ht x hx) (Nat.le_add_right _ _)
  · intro t t' ht ht' ha x hx y hy
    rw [htable (ht x hx), htable (ht' y hy)]
    exact ha x hx y hy
  · intro t ht _
    cases t with
    | none => rfl
    | some t => exact hg.view h (ht t rfl)
  · intro t ht _ x hx y hy
    have hlt := h.tableOf_lt (ht y hy)
    rw [(hnew x hx).2, htable (ht y hy)]
    omega

/-- An adopted scope copies like the scope that it was made of. -/
theorem copy_view?_adopt (g : ScopeGraph) (scope : Scope) :
    ((g.adopt scope).2.view? (g.adopt scope).1).copy = scope.copy := by
  cases hlevels : scope.levels with
  | cons level rest => rw [view?_adopt fun hnil => by simp [hlevels] at hnil]
  | nil =>
    rw [adopt_fst, hlevels, Scope.copy_nil hlevels]
    rfl

/-- Taking a snapshot for one's own. -/
theorem Layered.moves_snapshot? (h : g.Layered) (s : Option Nat) :
    Moves g (g.snapshot? s).2 none (g.snapshot? s).1 := by
  cases s with
  | none => exact .refl h (has_none g)
  | some s => exact h.moves_adopt _

theorem view?_snapshot? (g : ScopeGraph) (s : Option Nat) :
    (g.snapshot? s).2.view? (g.snapshot? s).1 = (g.view? s).copy := by
  cases s with
  | none => rfl
  | some s =>
    refine view?_adopt fun hnil => ?_
    cases hlevels : (g.view s).levels with
    | nil => exact Scope.copy_nil hlevels
    | cons level rest => simp [Scope.copy, hlevels, copyLevels] at hnil

end ScopeGraph

end HdlExpr
