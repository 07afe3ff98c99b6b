import Mathlib.Data.List.Nodup
import HdlExpr.Scope.Graph

/-!
# Bindings

A name in a scope is bound to a cell of the table of that scope.  What can be asked of a graph of
scopes is answered by its bindings and by what their cells hold, and each operation changes these
in a simple way.
-/

namespace HdlExpr.ScopeGraph

/-- A name in a scope. -/
structure Binding where
  scope : Nat
  name : String
  deriving DecidableEq, Repr

/-- What stays the same of a scope once it is made: the scope around it, and its table. -/
def outline (g : ScopeGraph) (s : Nat) : Option (Option Nat × Nat) :=
  (g.frames[s]?).map fun f => (f.parent, f.table)

def levelOf (g : ScopeGraph) (s : Nat) : Level := ((g.frames[s]?).map (·.level)).getD []

/-- The cell of a name in a scope itself, whatever the scopes around it bind. -/
def cell? (g : ScopeGraph) (b : Binding) : Option Cell :=
  ((g.levelOf b.scope).slot? b.name).map fun slot => ⟨g.tableOf b.scope, slot⟩

def stored? (g : ScopeGraph) (c : Cell) : Option Value := (g.tables[c.table]?).bind (·[c.slot]?)

def value? (g : ScopeGraph) (b : Binding) : Option Value := (g.cell? b).bind g.stored?

/-- A scope and the scopes around it, innermost first. -/
def chain (g : ScopeGraph) (s : Nat) : List Nat :=
  match g.frames[s]? with
  | none => []
  | some frame =>
    s :: match frame.parent with
      | some p => if p < s then chain g p else []
      | none => []
termination_by s

/-! ## Chains -/

section Chain

variable {g g' : ScopeGraph}

theorem outline_of_frames {s : Nat} {f : Frame} (h : g.frames[s]? = some f) :
    g.outline s = some (f.parent, f.table) := by
  rw [outline, h, Option.map_some]

theorem outline_eq_none_iff {s : Nat} : g.outline s = none ↔ g.frames.size ≤ s := by
  rw [outline, Option.map_eq_none_iff, Array.getElem?_eq_none_iff]

theorem frames_size_of_outline (h : g'.outline = g.outline) : g'.frames.size = g.frames.size := by
  have hle (n : Nat) : g'.frames.size ≤ n ↔ g.frames.size ≤ n := by
    rw [← outline_eq_none_iff, h, outline_eq_none_iff]
  exact Nat.le_antisymm ((hle _).mpr (Nat.le_refl _)) ((hle _).mp (Nat.le_refl _))

private theorem tableOf_eq_outline (g : ScopeGraph) (s : Nat) :
    g.tableOf s = ((g.outline s).map (·.2)).getD 0 := by
  rw [tableOf, outline, Option.map_map]
  rfl

theorem chain_eq_outline (g : ScopeGraph) (s : Nat) :
    g.chain s =
      match g.outline s with
      | none => []
      | some (parent, _) =>
        s :: match parent with
          | some p => if p < s then g.chain p else []
          | none => [] := by
  rw [chain, outline]
  cases g.frames[s]? with
  | none => rfl
  | some f => rfl

theorem levels_eq_map (g : ScopeGraph) (s : Nat) : g.levels s = (g.chain s).map g.levelOf := by
  induction s using Nat.strongRecOn with
  | ind s ih =>
    rw [levels, chain]
    cases hf : g.frames[s]? with
    | none => rfl
    | some f =>
      have hlevel : g.levelOf s = f.level := by rw [levelOf, hf, Option.map_some, Option.getD_some]
      cases hp : f.parent with
      | none => simp [hlevel, hp]
      | some p =>
        by_cases hlt : p < s
        · simp [hlevel, hp, hlt, ih p hlt]
        · simp [hlevel, hp, hlt]

/-- A chain depends only on the outlines of the scopes up to its own. -/
theorem chain_congr {s : Nat} (h : ∀ t ≤ s, g'.outline t = g.outline t) :
    g'.chain s = g.chain s := by
  induction s using Nat.strongRecOn with
  | ind s ih =>
    rw [chain_eq_outline, chain_eq_outline, h s (Nat.le_refl s)]
    cases g.outline s with
    | none => rfl
    | some o =>
      obtain ⟨parent, table⟩ := o
      cases parent with
      | none => rfl
      | some p =>
        by_cases hlt : p < s
        · have hp := ih p hlt fun t ht => h t (by omega)
          simp [hlt, hp]
        · simp [hlt]

theorem tableOf_congr {s : Nat} (h : g'.outline s = g.outline s) : g'.tableOf s = g.tableOf s := by
  rw [tableOf_eq_outline, tableOf_eq_outline, h]

end Chain

/-! ## Sound graphs -/

/-- Scopes lie inside older ones with the same table. -/
structure Layered (g : ScopeGraph) : Prop where
  parent {s p table : Nat} (h : g.outline s = some (some p, table)) :
    p < s ∧ g.tableOf p = table
  table_lt {s table : Nat} {parent : Option Nat} (h : g.outline s = some (parent, table)) :
    table < g.tables.size

/-- Every binding has a cell of its own. -/
structure Sound (g : ScopeGraph) : Prop extends Layered g where
  nodup (s : Nat) : ((g.levelOf s).map Prod.fst).Nodup
  stored {b : Binding} {c : Cell} (h : g.cell? b = some c) : ∃ v, g.stored? c = some v
  injective {b b' : Binding} {c : Cell} (h : g.cell? b = some c) (h' : g.cell? b' = some c) :
    b = b'
  unmarked {c : Cell} {v : Value} (h : g.stored? c = some v) : v.lvalue = false

section Sound

variable {g : ScopeGraph}

theorem levelOf_eq_nil {s : Nat} (h : g.outline s = none) : g.levelOf s = [] := by
  rw [outline, Option.map_eq_none_iff] at h
  rw [levelOf, h]
  rfl

theorem outline_of_cell? {b : Binding} {c : Cell} (h : g.cell? b = some c) :
    ∃ parent, g.outline b.scope = some (parent, c.table) := by
  obtain ⟨slot, hslot, rfl⟩ := Option.map_eq_some_iff.mp h
  cases ho : g.outline b.scope with
  | none => simp [levelOf_eq_nil ho, Level.slot?] at hslot
  | some o =>
    refine ⟨o.1, ?_⟩
    rw [tableOf_eq_outline, ho]
    rfl

theorem tableOf_of_outline {s table : Nat} {parent : Option Nat}
    (h : g.outline s = some (parent, table)) : g.tableOf s = table := by
  rw [tableOf_eq_outline, h]
  rfl

theorem layered_empty : Layered {} where
  parent h := by cases h
  table_lt h := by cases h

theorem sound_empty : Sound {} := by
  have hf (s : Nat) : (({} : ScopeGraph).frames[s]?) = none := rfl
  have hl (s : Nat) : ({} : ScopeGraph).levelOf s = [] := by rw [levelOf, hf]; rfl
  have hc (b : Binding) : ({} : ScopeGraph).cell? b = none := by rw [cell?, hl]; rfl
  have hs (c : Cell) : ({} : ScopeGraph).stored? c = none := rfl
  refine ⟨layered_empty, ?_, ?_, ?_, ?_⟩
  · intro s
    rw [hl]
    exact List.nodup_nil
  · intro b c h
    rw [hc] at h
    cases h
  · intro b b' c h
    rw [hc] at h
    cases h
  · intro c v h
    rw [hs] at h
    cases h

namespace Layered

variable (h : g.Layered)

include h

theorem of_outline {g' : ScopeGraph} (ho : g'.outline = g.outline)
    (ht : g'.tables.size = g.tables.size) : g'.Layered where
  parent {s p table} hs := by
    obtain ⟨hlt, htable⟩ := h.parent (ho ▸ hs)
    exact ⟨hlt, (tableOf_congr (congrFun ho p)).trans htable⟩
  table_lt hs := ht ▸ h.table_lt (ho ▸ hs)

/-- All scopes of a chain share one table. -/
theorem tableOf_of_mem_chain {s p : Nat} (hp : p ∈ g.chain s) : g.tableOf p = g.tableOf s := by
  induction s using Nat.strongRecOn with
  | ind s ih =>
    rw [chain_eq_outline] at hp
    cases ho : g.outline s with
    | none => simp [ho] at hp
    | some o =>
      obtain ⟨parent, table⟩ := o
      rw [ho, List.mem_cons] at hp
      rcases hp with rfl | hp
      · rfl
      · cases parent with
        | none => simp at hp
        | some q =>
          obtain ⟨hlt, hq⟩ := h.parent ho
          simp only [hlt, if_true] at hp
          rw [ih q hlt hp, hq, tableOf_of_outline ho]

/-- The chain of a scope goes on with the chain of the scope around it. -/
theorem chain_eq_cons {s table : Nat} {parent : Option Nat}
    (ho : g.outline s = some (parent, table)) :
    g.chain s = s :: parent.elim [] g.chain := by
  rw [chain_eq_outline, ho]
  cases parent with
  | none => rfl
  | some p => simp [(h.parent ho).1]

/-- From a scope of a chain, the rest of the chain is visible. -/
theorem chain_eq_drop {s p d : Nat} (hd : (g.chain s)[d]? = some p) :
    g.chain p = (g.chain s).drop d := by
  induction s using Nat.strongRecOn generalizing d with
  | ind s ih =>
    cases ho : g.outline s with
    | none => simp [chain_eq_outline, ho] at hd
    | some o =>
      obtain ⟨parent, table⟩ := o
      rw [h.chain_eq_cons ho] at hd ⊢
      cases d with
      | zero =>
        obtain rfl : s = p := by simpa using hd
        rw [h.chain_eq_cons ho, List.drop_zero]
      | succ d =>
        rw [List.getElem?_cons_succ] at hd
        rw [List.drop_succ_cons]
        cases parent with
        | none => simp at hd
        | some q => exact ih q (h.parent ho).1 hd

/-- A name is looked up in the scopes of the chain, one after the other. -/
theorem lookup_eq (s : Nat) (name : String) :
    g.lookup s name = (g.chain s).findSome? fun p => g.cell? ⟨p, name⟩ := by
  have hchain : ∀ ps : List Nat, (∀ p ∈ ps, g.tableOf p = g.tableOf s) →
      ((ps.map g.levelOf).findSome? (·.slot? name)).map (fun slot => (⟨g.tableOf s, slot⟩ : Cell)) =
        ps.findSome? fun p => g.cell? ⟨p, name⟩ := by
    intro ps hps
    induction ps with
    | nil => rfl
    | cons p ps ih =>
      obtain ⟨hp, hps⟩ := List.forall_mem_cons.mp hps
      have hrest := ih hps
      cases hslot : (g.levelOf p).slot? name with
      | none => simpa [cell?, hslot] using hrest
      | some slot => simp [cell?, hslot, hp]
  rw [lookup, Scope.lookup, view, levels_eq_map]
  exact hchain _ fun p hp => h.tableOf_of_mem_chain hp

end Layered

end Sound

/-! ## Writing -/

section Update

variable {g : ScopeGraph} {s : Nat}

theorem outline_update (g : ScopeGraph) (s : Nat) (scope : Scope) :
    (g.update s scope).outline = g.outline := by
  funext t
  simp only [outline, update, Array.getElem?_modify]
  split
  · rw [Option.map_map]
    rfl
  · rfl

theorem levelOf_update {f : Frame} (hs : g.frames[s]? = some f) (scope : Scope) (t : Nat) :
    (g.update s scope).levelOf t = if t = s then scope.levels.headD [] else g.levelOf t := by
  simp only [levelOf, update, Array.getElem?_modify]
  by_cases ht : s = t
  · subst ht
    simp [hs]
  · simp [ht, Ne.symm ht]

private theorem stored?_update (ht : g.tableOf s < g.tables.size) (scope : Scope) (c : Cell) :
    (g.update s scope).stored? c =
      if c.table = g.tableOf s then scope.cells[c.slot]? else g.stored? c := by
  simp only [stored?, update, Array.getElem?_setIfInBounds]
  by_cases hc : g.tableOf s = c.table
  · simp [hc, hc ▸ ht]
  · simp [hc, Ne.symm hc]

theorem tables_size_update (g : ScopeGraph) (s : Nat) (scope : Scope) :
    (g.update s scope).tables.size = g.tables.size := by
  simp [update]

theorem view_cells {c : Cell} (ht : c.table = g.tableOf s) :
    (g.view s).cells[c.slot]? = g.stored? c := by
  simp only [view, stored?, ht]
  cases g.tables[g.tableOf s]? with
  | none => simp
  | some cells => rfl

end Update

/-- What writing a value to a binding does: the binding has a cell, the one that it had if it had
one, which no other binding has, and the value is in it.  All other bindings and cells stay as they
are. -/
structure Writes (b : Binding) (c : Cell) (v : Value) (g g' : ScopeGraph) : Prop where
  outline : g'.outline = g.outline
  tables_size : g'.tables.size = g.tables.size
  cell (b' : Binding) : g'.cell? b' = if b' = b then some c else g.cell? b'
  stored (c' : Cell) : g'.stored? c' = if c' = c then some v.asRvalue else g.stored? c'
  own {b' : Binding} (h : g.cell? b' = some c) : b' = b
  kept {c' : Cell} (h : g.cell? b = some c') : c' = c
  nodup (s : Nat) : ((g'.levelOf s).map Prod.fst).Nodup

theorem Sound.write {g g' : ScopeGraph} {b : Binding} {c : Cell} {v : Value} (h : g.Sound)
    (hw : Writes b c v g g') : g'.Sound := by
  refine ⟨h.toLayered.of_outline hw.outline hw.tables_size, hw.nodup, ?_, ?_, ?_⟩
  · intro b' c' hc
    rw [hw.cell] at hc
    rw [hw.stored]
    by_cases hcc : c' = c
    · exact ⟨v.asRvalue, if_pos hcc⟩
    · have hb : b' ≠ b := by
        rintro rfl
        rw [if_pos rfl, Option.some.injEq] at hc
        exact hcc hc.symm
      rw [if_neg hb] at hc
      rw [if_neg hcc]
      exact h.stored hc
  · intro b₁ b₂ c' h₁ h₂
    rw [hw.cell] at h₁ h₂
    by_cases hb₁ : b₁ = b <;> by_cases hb₂ : b₂ = b
    · rw [hb₁, hb₂]
    · rw [if_pos hb₁, Option.some.injEq] at h₁
      rw [if_neg hb₂, ← h₁] at h₂
      exact absurd (hw.own h₂) hb₂
    · rw [if_pos hb₂, Option.some.injEq] at h₂
      rw [if_neg hb₁, ← h₂] at h₁
      exact absurd (hw.own h₁) hb₁
    · rw [if_neg hb₁] at h₁
      rw [if_neg hb₂] at h₂
      exact h.injective h₁ h₂
  · intro c' w hs
    rw [hw.stored] at hs
    split at hs
    · cases hs
      rfl
    · exact h.unmarked hs

theorem store_writes {g : ScopeGraph} {b : Binding} {c : Cell} (h : g.Sound)
    (hc : g.cell? b = some c) (v : Value) : Writes b c v g (g.store c v) := by
  obtain ⟨w, hw⟩ := h.stored hc
  refine ⟨rfl, by simp [store], fun b' => ?_, fun c' => ?_, fun hb' => h.injective hb' hc,
    fun hc' => Option.some.inj (hc'.symm.trans hc), h.nodup⟩
  · split
    case isTrue hb =>
      subst hb
      exact hc
    case isFalse => rfl
  · simp only [stored?, store, Array.getElem?_modify] at hw ⊢
    obtain ⟨cells, hcells, hslot⟩ := Option.bind_eq_some_iff.mp hw
    have hlt : c.slot < cells.size := (Array.getElem?_eq_some_iff.mp hslot).1
    obtain ⟨table, slot⟩ := c
    obtain ⟨table', slot'⟩ := c'
    by_cases ht : table = table'
    · subst ht
      rw [if_pos rfl, hcells, Option.map_some, Option.bind_some, Option.bind_some,
        Array.getElem?_setIfInBounds]
      by_cases hs : slot = slot'
      · subst hs
        simp [hlt]
      · simp [hs, Ne.symm hs]
    · simp [ht, Ne.symm ht]

/-- The two ways in which a name is set: it has a cell already, or it gets a new one. -/
theorem set?_cases {g g' : ScopeGraph} {s : Nat} {name : String} {v : Value} {c : Cell}
    (h : g.set? s name v = some (c, g')) :
    ∃ f, g.frames[s]? = some f ∧ c.table = g.tableOf s ∧
      ((f.level.slot? name = some c.slot ∧ g' = g.update s ((g.view s).store c.slot v)) ∨
        (f.level.slot? name = none ∧ c.slot = (g.view s).cells.size ∧
          g' = g.update s
            ⟨((name, c.slot) :: f.level) :: (g.levels s).tail,
              (g.view s).cells.push v.asRvalue⟩)) := by
  obtain ⟨⟨slot, scope⟩, hset, he⟩ := Option.map_eq_some_iff.mp h
  obtain ⟨rfl, rfl⟩ := Prod.mk.inj he
  cases hf : g.frames[s]? with
  | none =>
    have hnil : (g.view s).levels = [] := by
      simp only [view]
      rw [levels, hf]
    simp [Scope.set?, hnil] at hset
  | some f =>
    refine ⟨f, rfl, rfl, ?_⟩
    obtain ⟨rest, hlevels⟩ : ∃ rest, (g.view s).levels = f.level :: rest := by
      simp only [view]
      rw [levels, hf]
      exact ⟨_, rfl⟩
    have htail : (g.levels s).tail = rest := congrArg List.tail hlevels
    simp only [Scope.set?, hlevels] at hset
    cases hslot : f.level.slot? name with
    | some slot' =>
      simp only [hslot, Option.some.injEq, Prod.mk.injEq] at hset
      obtain ⟨rfl, rfl⟩ := hset
      exact .inl ⟨rfl, rfl⟩
    | none =>
      simp only [hslot, Option.some.injEq, Prod.mk.injEq] at hset
      obtain ⟨rfl, rfl⟩ := hset
      exact .inr ⟨rfl, rfl, by rw [htail]⟩

theorem update_view {g : ScopeGraph} {s : Nat} {f : Frame} (hf : g.frames[s]? = some f) :
    g.update s (g.view s) = g := by
  have hhead : (g.levels s).headD [] = f.level := by
    rw [levels, hf]
    rfl
  obtain ⟨frames, tables⟩ := g
  simp only [update, view, hhead, ScopeGraph.mk.injEq] at hf ⊢
  constructor
  · apply Array.ext_getElem?
    intro t
    rw [Array.getElem?_modify]
    split
    case isTrue ht =>
      subst ht
      simp [hf]
    case isFalse => rfl
  · apply Array.ext_getElem?
    intro t
    rw [Array.getElem?_setIfInBounds]
    split
    case isTrue ht =>
      subst ht
      by_cases hlt : tableOf ⟨frames, tables⟩ s < tables.size
      · simp [hlt]
      · simp [hlt]
    case isFalse => rfl

/-- Writing to a cell of a view is writing to the cell. -/
theorem update_store (g : ScopeGraph) (s : Nat) (scope : Scope) (slot : Nat) (v : Value) :
    g.update s (scope.store slot v) = (g.update s scope).store ⟨g.tableOf s, slot⟩ v := by
  simp only [update, store, Scope.store, ScopeGraph.mk.injEq, true_and]
  apply Array.ext_getElem?
  intro t
  rw [Array.getElem?_modify, Array.getElem?_setIfInBounds, Array.getElem?_setIfInBounds]
  split
  · by_cases hlt : g.tableOf s < g.tables.size <;> simp [hlt]
  · rfl

private theorem bind_writes {g : ScopeGraph} {s : Nat} {name : String} {c : Cell} {f : Frame}
    (h : g.Sound) (hf : g.frames[s]? = some f) (hslot : f.level.slot? name = none)
    (htable : c.table = g.tableOf s) (hnew : c.slot = (g.view s).cells.size) (v : Value) :
    Writes ⟨s, name⟩ c v g (g.update s ⟨((name, c.slot) :: f.level) :: (g.levels s).tail,
      (g.view s).cells.push v.asRvalue⟩) := by
  have hlevel : g.levelOf s = f.level := by rw [levelOf, hf, Option.map_some, Option.getD_some]
  have ho := outline_of_frames hf
  have hlt : g.tableOf s < g.tables.size := tableOf_of_outline ho ▸ h.table_lt ho
  have hfree : g.stored? c = none := by
    rw [← view_cells htable, hnew]
    exact Array.getElem?_eq_none (Nat.le_refl _)
  refine ⟨outline_update g s _, tables_size_update g s _, fun b' => ?_, fun c' => ?_,
    fun hb' => ?_, fun hc' => ?_, fun t => ?_⟩
  · have htableOf := tableOf_congr (congrFun (outline_update g s
      ⟨((name, c.slot) :: f.level) :: (g.levels s).tail,
        (g.view s).cells.push v.asRvalue⟩) b'.scope)
    rw [cell?, levelOf_update hf, htableOf]
    obtain ⟨t, x⟩ := b'
    by_cases ht : t = s
    · subst ht
      by_cases hx : x = name
      · subst hx
        simp [Level.slot?, ← htable]
      · have hx' : (x == name) = false := by simp [hx]
        simp [Level.slot?, List.lookup_cons, hx', hx, cell?, hlevel]
    · simp [ht, cell?]
  · rw [stored?_update hlt]
    obtain ⟨table, slot⟩ := c
    obtain ⟨table', slot'⟩ := c'
    by_cases ht : table' = g.tableOf s
    · have htt : table' = table := ht.trans htable.symm
      have hview := view_cells (c := ⟨table', slot'⟩) ht
      simp only at hnew hview
      rw [if_pos ht, Array.getElem?_push, ← hnew]
      by_cases hs : slot' = slot
      · simp [hs, htt]
      · simp [hs, hview]
    · have htt : table' ≠ table := fun he => ht (he.trans htable)
      simp [ht, htt]
  · obtain ⟨w, hw⟩ := h.stored hb'
    rw [hfree] at hw
    cases hw
  · rw [cell?, hlevel, hslot] at hc'
    cases hc'
  · rw [levelOf_update hf]
    split
    case isTrue ht =>
      have hmem : name ∉ f.level.map Prod.fst := by
        intro hm
        obtain ⟨p, hp, rfl⟩ := List.mem_map.mp hm
        have hne := List.lookup_eq_none_iff.mp hslot p hp
        simp at hne
      rw [List.headD_cons, List.map_cons, List.nodup_cons]
      exact ⟨hmem, hlevel ▸ h.nodup s⟩
    case isFalse => exact h.nodup t

theorem set?_writes {g g' : ScopeGraph} {s : Nat} {name : String} {v : Value} {c : Cell}
    (h : g.Sound) (hset : g.set? s name v = some (c, g')) : Writes ⟨s, name⟩ c v g g' := by
  obtain ⟨f, hf, htable, hcases⟩ := set?_cases hset
  rcases hcases with ⟨hslot, rfl⟩ | ⟨hslot, hnew, rfl⟩
  · have hlevel : g.levelOf s = f.level := by rw [levelOf, hf, Option.map_some, Option.getD_some]
    have hc : g.cell? ⟨s, name⟩ = some c := by
      rw [cell?, hlevel, hslot, Option.map_some, ← htable]
    rw [update_store, update_view hf, ← htable]
    exact store_writes h hc v
  · exact bind_writes h hf hslot htable hnew v

/-- A name can be set in every scope that there is, and in no other. -/
theorem isSome_set? (g : ScopeGraph) (s : Nat) (name : String) (v : Value) :
    (g.set? s name v).isSome = true ↔ s < g.frames.size := by
  have hview : (g.view s).levels = g.levels s := rfl
  by_cases hs : s < g.frames.size
  · obtain ⟨rest, hlevels⟩ : ∃ rest, g.levels s = g.frames[s].level :: rest := by
      rw [levels, Array.getElem?_eq_getElem hs]
      exact ⟨_, rfl⟩
    cases hslot : g.frames[s].level.slot? name <;>
      simp [set?, Scope.set?, hview, hlevels, hslot, hs]
  · have hlevels : g.levels s = [] := by
      rw [levels, Array.getElem?_eq_none (Nat.not_lt.mp hs)]
    simp [set?, Scope.set?, hview, hlevels, hs]

/-! ## Growing -/

/-- Scopes and tables are added behind those that there are. -/
structure Grows (g g' : ScopeGraph) : Prop where
  frames {s : Nat} (h : s < g.frames.size) : g'.frames[s]? = g.frames[s]?
  tables {t : Nat} (h : t < g.tables.size) : g'.tables[t]? = g.tables[t]?
  tables_size : g.tables.size ≤ g'.tables.size

namespace Grows

variable {g g' : ScopeGraph} (h : Grows g g')

include h

theorem outline {s : Nat} (hs : s < g.frames.size) : g'.outline s = g.outline s := by
  rw [ScopeGraph.outline, ScopeGraph.outline, h.frames hs]

theorem levelOf {s : Nat} (hs : s < g.frames.size) : g'.levelOf s = g.levelOf s := by
  rw [ScopeGraph.levelOf, ScopeGraph.levelOf, h.frames hs]

theorem cell {b : Binding} (hb : b.scope < g.frames.size) : g'.cell? b = g.cell? b := by
  rw [cell?, cell?, h.levelOf hb, tableOf_congr (h.outline hb)]

theorem stored {c : Cell} (hc : c.table < g.tables.size) : g'.stored? c = g.stored? c := by
  rw [stored?, stored?, h.tables hc]

theorem chain {s : Nat} (hs : s < g.frames.size) : g'.chain s = g.chain s :=
  chain_congr fun _ ht => h.outline (Nat.lt_of_le_of_lt ht hs)

end Grows

theorem lt_size_of_outline {g : ScopeGraph} {s : Nat} {o : Option Nat × Nat}
    (h : g.outline s = some o) : s < g.frames.size := by
  by_contra hs
  rw [outline_eq_none_iff.mpr (Nat.not_lt.mp hs)] at h
  cases h

theorem Sound.lt_of_cell? {g : ScopeGraph} (h : g.Sound) {b : Binding} {c : Cell}
    (hc : g.cell? b = some c) : b.scope < g.frames.size ∧ c.table < g.tables.size := by
  obtain ⟨parent, ho⟩ := outline_of_cell? hc
  exact ⟨lt_size_of_outline ho, h.table_lt ho⟩

theorem Layered.grow {g g' : ScopeGraph} (h : g.Layered) (hg : Grows g g')
    (parent : ∀ s p table, g.frames.size ≤ s → g'.outline s = some (some p, table) →
      p < s ∧ g'.tableOf p = table)
    (table_lt : ∀ s table parent, g.frames.size ≤ s → g'.outline s = some (parent, table) →
      table < g'.tables.size) : g'.Layered := by
  constructor
  · intro s p table ho
    by_cases hs : s < g.frames.size
    · rw [hg.outline hs] at ho
      obtain ⟨hlt, ht⟩ := h.parent ho
      exact ⟨hlt, (tableOf_congr (hg.outline (by omega))).trans ht⟩
    · exact parent s p table (Nat.not_lt.mp hs) ho
  · intro s table q ho
    by_cases hs : s < g.frames.size
    · rw [hg.outline hs] at ho
      exact Nat.lt_of_lt_of_le (h.table_lt ho) hg.tables_size
    · exact table_lt s table q (Nat.not_lt.mp hs) ho

/-- A graph that grows stays sound when the new scopes are. -/
theorem Sound.grow {g g' : ScopeGraph} (h : g.Sound) (hg : Grows g g')
    (parent : ∀ s p table, g.frames.size ≤ s → g'.outline s = some (some p, table) →
      p < s ∧ g'.tableOf p = table)
    (table_lt : ∀ s table parent, g.frames.size ≤ s → g'.outline s = some (parent, table) →
      table < g'.tables.size)
    (nodup : ∀ s, g.frames.size ≤ s → ((g'.levelOf s).map Prod.fst).Nodup)
    (stored : ∀ b c, g.frames.size ≤ b.scope → g'.cell? b = some c → ∃ v, g'.stored? c = some v)
    (own : ∀ b b' c, g.frames.size ≤ b.scope → g'.cell? b = some c → g'.cell? b' = some c → b = b')
    (unmarked : ∀ c v, g.tables.size ≤ c.table → g'.stored? c = some v → v.lvalue = false) :
    g'.Sound := by
  refine ⟨h.toLayered.grow hg parent table_lt, ?_, ?_, ?_, ?_⟩
  · intro s
    by_cases hs : s < g.frames.size
    · rw [hg.levelOf hs]
      exact h.nodup s
    · exact nodup s (Nat.not_lt.mp hs)
  · intro b c hc
    by_cases hs : b.scope < g.frames.size
    · rw [hg.cell hs] at hc
      rw [hg.stored (h.lt_of_cell? hc).2]
      exact h.stored hc
    · exact stored b c (Nat.not_lt.mp hs) hc
  · intro b b' c hc hc'
    by_cases hs : b.scope < g.frames.size
    · by_cases hs' : b'.scope < g.frames.size
      · rw [hg.cell hs] at hc
        rw [hg.cell hs'] at hc'
        exact h.injective hc hc'
      · exact (own b' b c (Nat.not_lt.mp hs') hc' hc).symm
    · exact own b b' c (Nat.not_lt.mp hs) hc hc'
  · intro c v hv
    by_cases hc : c.table < g.tables.size
    · rw [hg.stored hc] at hv
      exact h.unmarked hv
    · exact unmarked c v (Nat.not_lt.mp hc) hv

/-! ### New scopes -/

section Enter

variable {g : ScopeGraph} (parent : Option Nat)

theorem enter_fst (g : ScopeGraph) : (g.enter parent).1 = g.frames.size := by
  cases parent <;> rfl

theorem enter_grows (g : ScopeGraph) : Grows g (g.enter parent).2 := by
  cases parent with
  | none =>
    refine ⟨fun hs => ?_, fun ht => ?_, ?_⟩
    · simp [enter, Array.getElem?_push, Nat.ne_of_lt hs]
    · simp [enter, Array.getElem?_push, Nat.ne_of_lt ht]
    · simp [enter]
  | some p =>
    refine ⟨fun hs => ?_, fun _ => rfl, Nat.le_refl _⟩
    simp [enter, Array.getElem?_push, Nat.ne_of_lt hs]

theorem frames_size_enter (g : ScopeGraph) :
    (g.enter parent).2.frames.size = g.frames.size + 1 := by
  cases parent <;> simp [enter]

private theorem levelOf_enter (g : ScopeGraph) {s : Nat} (hs : g.frames.size ≤ s) :
    (g.enter parent).2.levelOf s = [] := by
  by_cases hn : s = g.frames.size
  · cases parent <;> simp [enter, levelOf, hn]
  · refine levelOf_eq_nil (outline_eq_none_iff.mpr ?_)
    rw [frames_size_enter]
    omega

/-- A new scope binds nothing. -/
theorem cell?_enter (g : ScopeGraph) (b : Binding) : (g.enter parent).2.cell? b = g.cell? b := by
  by_cases hb : b.scope < g.frames.size
  · exact (enter_grows parent g).cell hb
  · have hb := Nat.not_lt.mp hb
    rw [cell?, cell?, levelOf_enter parent g hb, levelOf_eq_nil (outline_eq_none_iff.mpr hb)]
    rfl

theorem stored?_enter (g : ScopeGraph) (c : Cell) :
    (g.enter parent).2.stored? c = g.stored? c := by
  cases parent with
  | some p => rfl
  | none =>
    simp only [enter, stored?, Array.getElem?_push]
    split
    case isTrue hc => simp [hc]
    case isFalse => rfl

theorem outline_enter (g : ScopeGraph) :
    (g.enter parent).2.outline g.frames.size =
      some (parent, (parent.map g.tableOf).getD g.tables.size) := by
  cases parent <;> simp [enter, outline]

theorem Sound.enter (h : g.Sound) (hp : ∀ p ∈ parent, p < g.frames.size) :
    (g.enter parent).2.Sound := by
  have hgrows := enter_grows parent g
  -- Of the scopes from here on there is only the new one, and it binds nothing.
  have hnew {s : Nat} {o : Option Nat × Nat} (hs : g.frames.size ≤ s)
      (ho : (g.enter parent).2.outline s = some o) :
      s = g.frames.size ∧ o = (parent, (parent.map g.tableOf).getD g.tables.size) := by
    have hlt := lt_size_of_outline ho
    rw [frames_size_enter] at hlt
    obtain rfl : s = g.frames.size := by omega
    rw [outline_enter, Option.some.injEq] at ho
    exact ⟨rfl, ho.symm⟩
  have hnone {b : Binding} {c : Cell} (hb : g.frames.size ≤ b.scope) :
      (g.enter parent).2.cell? b ≠ some c := by
    rw [cell?, levelOf_enter parent g hb]
    simp [Level.slot?]
  refine h.grow hgrows ?_ ?_ ?_ ?_ ?_ ?_
  · intro s p table hs ho
    obtain ⟨rfl, he⟩ := hnew hs ho
    obtain ⟨rfl, rfl⟩ := Prod.mk.inj he
    have hlt := hp p rfl
    exact ⟨hlt, tableOf_congr (hgrows.outline hlt)⟩
  · intro s table q hs ho
    obtain ⟨rfl, he⟩ := hnew hs ho
    obtain ⟨rfl, rfl⟩ := Prod.mk.inj he
    cases q with
    | none => simp [ScopeGraph.enter]
    | some p =>
      have hlt := hp p rfl
      obtain ⟨o, ho⟩ : ∃ o, g.outline p = some o :=
        Option.ne_none_iff_exists'.mp fun hn => absurd (outline_eq_none_iff.mp hn) (by omega)
      have htable : g.tableOf p < g.tables.size := tableOf_of_outline ho ▸ h.table_lt ho
      simpa [ScopeGraph.enter] using htable
  · intro s hs
    rw [levelOf_enter parent g hs]
    exact List.nodup_nil
  · intro b c hb hc
    exact absurd hc (hnone hb)
  · intro b b' c hb hc
    exact absurd hc (hnone hb)
  · intro c v _ hv
    rw [stored?_enter] at hv
    exact h.unmarked hv

end Enter

end HdlExpr.ScopeGraph
