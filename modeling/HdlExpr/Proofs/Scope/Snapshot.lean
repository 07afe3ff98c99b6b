import HdlExpr.Proofs.Scope.Twin

/-!
# Snapshots

After a snapshot the scopes and tables of a graph fall into two sides, the original and the copy,
and what is done on one side reaches nothing on the other.  So each side answers as if it were
alone, and the copy, which is a twin of the chain that it was made from, answers as this chain would
have answered.
-/

namespace HdlExpr.ScopeGraph

open Run

inductive Side where
  | original
  | copy
  deriving DecidableEq, Repr

/-- Scopes and tables with the side that they are on. -/
structure Border where
  scope : Nat → Side
  table : Nat → Side

/-- The scopes and tables that there are, and those that come after them. -/
def Border.after (g : ScopeGraph) : Border where
  scope s := if s < g.frames.size then .original else .copy
  table t := if t < g.tables.size then .original else .copy

/-- No scope has its table or the scope around it on the other side. -/
structure Split (k : Border) (g : ScopeGraph) : Prop where
  table {s table : Nat} {parent : Option Nat} (h : g.outline s = some (parent, table)) :
    k.table table = k.scope s
  parent {s p table : Nat} (h : g.outline s = some (some p, table)) : k.scope p = k.scope s

/-- Two graphs that are the same on one side. -/
structure Agree (k : Border) (x : Side) (g g' : ScopeGraph) : Prop where
  frames {s : Nat} (h : k.scope s = x) : g'.frames[s]? = g.frames[s]?
  tables {t : Nat} (h : k.table t = x) : g'.tables[t]? = g.tables[t]?

theorem Split.of_outline {k : Border} {g g' : ScopeGraph} (h : Split k g)
    (ho : g'.outline = g.outline) : Split k g' where
  table hs := h.table (ho ▸ hs)
  parent hs := h.parent (ho ▸ hs)

theorem Split.tableOf {k : Border} {g : ScopeGraph} (h : Split k g) {s : Nat}
    (hs : s < g.frames.size) : k.table (g.tableOf s) = k.scope s := by
  have ho := outline_of_frames (Array.getElem?_eq_getElem hs)
  rw [tableOf_of_outline ho]
  exact h.table ho

namespace Agree

variable {k : Border} {x : Side} {g g' : ScopeGraph}

private theorem refl (k : Border) (x : Side) (g : ScopeGraph) : Agree k x g g :=
  ⟨fun _ => rfl, fun _ => rfl⟩

private theorem trans {g'' : ScopeGraph} (h : Agree k x g g') (h' : Agree k x g' g'') :
    Agree k x g g'' where
  frames hs := (h'.frames hs).trans (h.frames hs)
  tables ht := (h'.tables ht).trans (h.tables ht)

/-! ### The same on both graphs -/

section Same

variable (h : Agree k x g g')

include h

private theorem lt_iff {s : Nat} (hs : k.scope s = x) : s < g.frames.size ↔ s < g'.frames.size := by
  have hnone : g'.frames[s]? = none ↔ g.frames[s]? = none := by rw [h.frames hs]
  rw [Array.getElem?_eq_none_iff, Array.getElem?_eq_none_iff] at hnone
  omega

private theorem tableOf {s : Nat} (hs : k.scope s = x) : g.tableOf s = g'.tableOf s := by
  rw [ScopeGraph.tableOf, ScopeGraph.tableOf, h.frames hs]

private theorem levels (hsplit : Split k g') {s : Nat} (hs : k.scope s = x) :
    g.levels s = g'.levels s := by
  induction s using Nat.strongRecOn with
  | ind s ih =>
    rw [ScopeGraph.levels, ScopeGraph.levels.eq_def g', h.frames hs]
    cases hf : g.frames[s]? with
    | none => rfl
    | some f =>
      cases hp : f.parent with
      | none => simp [hp]
      | some p =>
        have hside : k.scope p = x := by
          have ho := outline_of_frames ((h.frames hs).trans hf)
          rw [hp] at ho
          exact (hsplit.parent ho).trans hs
        by_cases hlt : p < s
        · simp [hp, hlt, ih p hlt hside]
        · simp [hp, hlt]

private theorem view (hsplit : Split k g') {s : Nat} (hs : k.scope s = x)
    (hlt : s < g'.frames.size) : g.view s = g'.view s := by
  have htable : k.table (g'.tableOf s) = x := (hsplit.tableOf hlt).trans hs
  rw [ScopeGraph.view, ScopeGraph.view, h.levels hsplit hs, h.tableOf hs, h.tables htable]

private theorem update {s : Nat} (hs : k.scope s = x) (scope : Scope) :
    Agree k x (g.update s scope) (g'.update s scope) where
  frames := by
    intro t ht
    simp only [ScopeGraph.update, Array.getElem?_modify, h.frames ht]
  tables := by
    intro t ht
    have hsize : t < g'.tables.size ↔ t < g.tables.size := by
      have hnone : g'.tables[t]? = none ↔ g.tables[t]? = none := by rw [h.tables ht]
      rw [Array.getElem?_eq_none_iff, Array.getElem?_eq_none_iff] at hnone
      omega
    simp only [ScopeGraph.update, Array.getElem?_setIfInBounds, h.tables ht, h.tableOf hs]
    split
    case isTrue he =>
      subst he
      simp only [hsize]
    case isFalse => rfl

private theorem store (c : Cell) (v : Value) : Agree k x (g.store c v) (g'.store c v) where
  frames := h.frames
  tables := by
    intro t ht
    simp only [ScopeGraph.store, Array.getElem?_modify, h.tables ht]

end Same

/-! ### On the other side -/

private theorem update_other {s : Nat} (hsplit : Split k g) (hs : k.scope s ≠ x)
    (hlt : s < g.frames.size) (scope : Scope) : Agree k x g (g.update s scope) where
  frames := by
    intro t ht
    have hne : s ≠ t := fun he => hs (he ▸ ht)
    simp only [ScopeGraph.update, Array.getElem?_modify, if_neg hne]
  tables := by
    intro t ht
    have hne : g.tableOf s ≠ t := fun he => hs ((hsplit.tableOf hlt).symm.trans (he ▸ ht))
    simp only [ScopeGraph.update, Array.getElem?_setIfInBounds, if_neg hne]

private theorem store_other {c : Cell} (hc : k.table c.table ≠ x) (v : Value) :
    Agree k x g (g.store c v) where
  frames _ := rfl
  tables := by
    intro t ht
    have hne : c.table ≠ t := fun he => hc (he ▸ ht)
    simp only [ScopeGraph.store, Array.getElem?_modify, if_neg hne]

end Agree

/-! ## One side in use -/

private theorem mem_of_place {ss : List Nat} {d : Option Nat} {s : Nat} (h : place ss d = some s) :
    s ∈ ss := by
  obtain ⟨i, -, hi⟩ := Option.bind_eq_some_iff.mp h
  exact List.mem_of_getElem? hi

/-- A session that knows only scopes and cells of one side. -/
structure Confined (k : Border) (y : Side) (ss : List Nat) (σ : Session) : Prop where
  split : Split k σ.graph
  scope {s : Nat} (h : s ∈ ss) : k.scope s = y ∧ s < σ.graph.frames.size
  cell {c : Cell} (h : some c ∈ σ.cells) : k.table c.table = y

/-- What is done to a session changes nothing on the other side. -/
structure Stays (k : Border) (y : Side) (ss : List Nat) (σ τ : Session) : Prop where
  confined : Confined k y ss τ
  outline : τ.graph.outline = σ.graph.outline
  agree {x : Side} (h : y ≠ x) : Agree k x σ.graph τ.graph

namespace Confined

variable {k : Border} {y : Side} {ss : List Nat} {σ : Session} (h : Confined k y ss σ)

include h

private theorem stays : Stays k y ss σ σ := ⟨h, rfl, fun _ => .refl k _ _⟩

private theorem of_outline {g : ScopeGraph} (ho : g.outline = σ.graph.outline) :
    Confined k y ss { σ with graph := g } where
  split := h.split.of_outline ho
  scope hs := ⟨(h.scope hs).1, by rw [frames_size_of_outline ho]; exact (h.scope hs).2⟩
  cell := h.cell

private theorem stays_graph {g : ScopeGraph} (ho : g.outline = σ.graph.outline)
    (hagree : ∀ x, y ≠ x → Agree k x σ.graph g) : Stays k y ss σ { σ with graph := g } where
  confined := h.of_outline ho
  outline := ho
  agree hx := hagree _ hx

private theorem update {s : Nat} (hs : s ∈ ss) (scope : Scope) :
    Stays k y ss σ { σ with graph := σ.graph.update s scope } := by
  obtain ⟨hside, hlt⟩ := h.scope hs
  exact h.stays_graph (outline_update σ.graph s scope) fun x hx =>
    .update_other h.split (fun he => hx (hside.symm.trans he)) hlt scope

end Confined

theorem Stays.ask {k : Border} {y : Side} {ss : List Nat} {σ τ : Session} (h : Stays k y ss σ τ)
    {c : Option Cell} (hc : ∀ c' ∈ c, k.table c'.table = y) :
    Stays k y ss σ { τ with cells := τ.cells ++ [c] } where
  confined :=
    { split := h.confined.split
      scope := h.confined.scope
      cell := by
        intro c' hm
        rcases List.mem_append.mp hm with hm | hm
        · exact h.confined.cell hm
        · exact hc c' (List.mem_singleton.mp hm).symm }
  outline := h.outline
  agree := h.agree

theorem Session.cell?_mem {σ : Session} {i : Nat} {c : Cell} (h : σ.cell? i = some c) :
    some c ∈ σ.cells := List.mem_of_getElem? (Option.join_eq_some_iff.mp h)

namespace Confined

variable {k : Border} {y : Side} {ss : List Nat} {σ : Session} (h : Confined k y ss σ)

include h

private theorem access (a : Access) : Stays k y ss σ (Session.access (a.among ss) σ).2 := by
  cases a with
  | set d name v =>
    simp only [Access.among, Session.access]
    cases hd : place ss d with
    | none => exact h.stays.ask (by simp)
    | some s =>
      have hs := mem_of_place hd
      obtain ⟨hside, hlt⟩ := h.scope hs
      simp only [Option.bind_some, set?]
      cases (σ.graph.view s).set? name v with
      | none => exact h.stays.ask (by simp)
      | some r =>
        refine (h.update hs r.2).ask fun c hc => ?_
        cases hc
        exact (h.split.tableOf hlt).trans hside
  | lookup d name =>
    simp only [Access.among, Session.access]
    refine h.stays.ask fun c hc => ?_
    obtain ⟨s, hd, hl⟩ := Option.bind_eq_some_iff.mp hc
    obtain ⟨hside, hlt⟩ := h.scope (mem_of_place hd)
    obtain ⟨slot, -, rfl⟩ := Option.map_eq_some_iff.mp hl
    exact (h.split.tableOf hlt).trans hside
  | load i => exact h.stays
  | store i v =>
    simp only [Access.among, Session.access]
    cases hc : σ.cell? i with
    | none => exact h.stays
    | some c =>
      have hside := h.cell (Session.cell?_mem hc)
      exact h.stays_graph rfl fun x hx => .store_other (fun he => hx (hside.symm.trans he)) v

private theorem use (u : Use) : Stays k y ss σ (Session.use ss u σ).2 := by
  cases u with
  | access a => exact h.access a
  | evaluate d c n =>
    simp only [Session.use, Use.among, Session.perform, evaluate]
    cases hd : place ss d with
    | none => exact h.stays
    | some s =>
      have hs := mem_of_place hd
      simp only [Option.filter_some, (h.scope hs).2, decide_true, if_true]
      exact h.update hs _

variable {α : Session} (hagree : Agree k y α.graph σ.graph) (hcells : α.cells = σ.cells)

include hagree hcells

private theorem access_same (a : Access) :
    (Session.access (a.among ss) α).1 = (Session.access (a.among ss) σ).1 ∧
      Agree k y (Session.access (a.among ss) α).2.graph (Session.access (a.among ss) σ).2.graph ∧
      (Session.access (a.among ss) α).2.cells = (Session.access (a.among ss) σ).2.cells := by
  have hcell (i : Nat) : α.cell? i = σ.cell? i := by rw [Session.cell?, Session.cell?, hcells]
  cases a with
  | set d name v =>
    simp only [Access.among, Session.access]
    cases hd : place ss d with
    | none => exact ⟨rfl, hagree, congrArg (· ++ [none]) hcells⟩
    | some s =>
      obtain ⟨hside, hlt⟩ := h.scope (mem_of_place hd)
      simp only [Option.bind_some, set?, hagree.view h.split hside hlt, hagree.tableOf hside]
      cases (σ.graph.view s).set? name v with
      | none => exact ⟨rfl, hagree, congrArg (· ++ [none]) hcells⟩
      | some r => exact ⟨rfl, hagree.update hside r.2, congrArg (· ++ [_]) hcells⟩
  | lookup d name =>
    have hfound : (place ss d).bind (α.graph.lookup · name) =
        (place ss d).bind (σ.graph.lookup · name) := by
      cases hd : place ss d with
      | none => rfl
      | some s =>
        obtain ⟨hside, hlt⟩ := h.scope (mem_of_place hd)
        simp only [Option.bind_some, lookup, hagree.view h.split hside hlt, hagree.tableOf hside]
    simp only [Access.among, Session.access, hfound]
    exact ⟨trivial, hagree, congrArg (· ++ [_]) hcells⟩
  | load i =>
    simp only [Access.among, Session.access, hcell]
    refine ⟨?_, hagree, hcells⟩
    cases hc : σ.cell? i with
    | none => rfl
    | some c =>
      have htable := hagree.tables (h.cell (Session.cell?_mem hc))
      simp only [Option.map_some, load, htable]
  | store i v =>
    simp only [Access.among, Session.access, hcell]
    cases σ.cell? i with
    | none => exact ⟨rfl, hagree, hcells⟩
    | some c => exact ⟨rfl, hagree.store c v, hcells⟩

/-- The same is seen, whatever is on the other side. -/
theorem use_same (u : Use) :
    (Session.use ss u α).1 = (Session.use ss u σ).1 ∧
      Agree k y (Session.use ss u α).2.graph (Session.use ss u σ).2.graph ∧
      (Session.use ss u α).2.cells = (Session.use ss u σ).2.cells := by
  cases u with
  | access a =>
    obtain ⟨hanswer, hnext⟩ := h.access_same hagree hcells a
    exact ⟨congrArg Seen.answer hanswer, hnext⟩
  | evaluate d c n =>
    simp only [Session.use, Use.among, Session.perform, evaluate]
    cases hd : place ss d with
    | none => exact ⟨rfl, hagree, hcells⟩
    | some s =>
      obtain ⟨hside, hlt⟩ := h.scope (mem_of_place hd)
      have hlt' : s < α.graph.frames.size := (hagree.lt_iff hside).mpr hlt
      simp only [Option.filter_some, hlt, hlt', decide_true, if_true, hagree.view h.split hside hlt]
      exact ⟨trivial, hagree.update hside _, hcells⟩

end Confined

/-! ## Both sides in use -/

/-- A graph that is used from both sides, each with the cells that it asked for. -/
structure Shared where
  graph : ScopeGraph
  cells : Side → List (Option Cell)

namespace Shared

/-- What one side knows. -/
def part (γ : Shared) (y : Side) : Session := ⟨γ.graph, γ.cells y⟩

def use (ss : Side → List Nat) (u : Side × Use) : StateM Shared (Side × Seen) := fun γ =>
  let r := Session.use (ss u.1) u.2 (γ.part u.1)
  ((u.1, r.1), ⟨r.2.graph, fun y => if y = u.1 then r.2.cells else γ.cells y⟩)

private theorem part_use_same (ss : Side → List Nat) (y : Side) (u : Use) (γ : Shared) :
    (use ss (y, u) γ).2.part y = (Session.use (ss y) u (γ.part y)).2 := by
  simp [use, part]

private theorem part_use_other (ss : Side → List Nat) {y z : Side} (hz : z ≠ y) (u : Use)
    (γ : Shared) : (use ss (y, u) γ).2.part z =
      { γ.part z with graph := (Session.use (ss y) u (γ.part y)).2.graph } := by
  simp [use, part, hz]

end Shared

/-- What belongs to one side, in order. -/
def ofSide {α : Type} (x : Side) (us : List (Side × α)) : List α :=
  us.filterMap fun u => if u.1 = x then some u.2 else none

private theorem ofSide_same {α : Type} (x : Side) (a : α) (us : List (Side × α)) :
    ofSide x ((x, a) :: us) = a :: ofSide x us := by
  simp [ofSide]

private theorem ofSide_other {α : Type} {x y : Side} (h : y ≠ x) (a : α) (us : List (Side × α)) :
    ofSide x ((y, a) :: us) = ofSide x us := by
  simp [ofSide, h]

/-- A graph in use from both sides, and a session in which only one side does its part. -/
structure Apart (k : Border) (ss : Side → List Nat) (x : Side) (γ : Shared) (α : Session) :
    Prop where
  confined (y : Side) : Confined k y (ss y) (γ.part y)
  agree : Agree k x α.graph γ.graph
  cells : α.cells = γ.cells x

namespace Apart

variable {k : Border} {ss : Side → List Nat} {x : Side} {γ : Shared} {α : Session}
  (h : Apart k ss x γ α)

include h

private theorem confined_use (y : Side) (u : Use) (z : Side) :
    Confined k z (ss z) ((Shared.use ss (y, u) γ).2.part z) := by
  have hstays := (h.confined y).use u
  by_cases hz : z = y
  · subst hz
    rw [Shared.part_use_same]
    exact hstays.confined
  · rw [Shared.part_use_other ss hz]
    exact (h.confined z).of_outline hstays.outline

private theorem use_same (u : Use) :
    (Session.use (ss x) u α).1 = (Shared.use ss (x, u) γ).1.2 ∧
      Apart k ss x (Shared.use ss (x, u) γ).2 (Session.use (ss x) u α).2 := by
  obtain ⟨hseen, hagree, hcells⟩ := (h.confined x).use_same h.agree h.cells u
  refine ⟨hseen, h.confined_use x u, hagree, ?_⟩
  rw [hcells, ← Shared.part_use_same]
  rfl

private theorem use_other {y : Side} (hy : y ≠ x) (u : Use) :
    Apart k ss x (Shared.use ss (y, u) γ).2 α where
  confined := h.confined_use y u
  agree := h.agree.trans (((h.confined y).use u).agree hy)
  cells := by
    have hpart := congrArg Session.cells (Shared.part_use_other ss (Ne.symm hy) u γ)
    exact h.cells.trans hpart.symm

/-- Each side sees what it would see alone. -/
theorem run (us : List (Side × Use)) :
    ofSide x (us.mapM (Shared.use ss) γ).1 = ((ofSide x us).mapM (Session.use (ss x)) α).1 := by
  induction us generalizing γ α with
  | nil => rfl
  | cons u us ih =>
    obtain ⟨y, u⟩ := u
    have hcons : (((y, u) :: us).mapM (Shared.use ss) γ).1 =
        (y, (Shared.use ss (y, u) γ).1.2) ::
          (us.mapM (Shared.use ss) (Shared.use ss (y, u) γ).2).1 := by
      rw [List.mapM_cons]
      rfl
    rw [hcons]
    by_cases hy : y = x
    · subst hy
      obtain ⟨hseen, hnext⟩ := h.use_same u
      rw [ofSide_same, ofSide_same, ih hnext, ← hseen, List.mapM_cons]
      rfl
    · rw [ofSide_other hy, ofSide_other hy, ih (h.use_other hy u)]

end Apart

/-! ## After a snapshot -/

theorem Grows.agree {g g' : ScopeGraph} (h : Grows g g') :
    Agree (.after g) .original g g' where
  frames hs := h.frames (by simpa [Border.after] using hs)
  tables ht := h.tables (by simpa [Border.after] using ht)

namespace Copies

variable {g g' : ScopeGraph} {ps : List Nat} (h : Copies g g' ps)

include h

private theorem outline_cases {s table : Nat} {parent : Option Nat}
    (ho : g'.outline s = some (parent, table)) :
    (s < g.frames.size ∧ g.outline s = some (parent, table)) ∨
      ∃ i, s = g.frames.size + i ∧ last? g.frames.size i = parent ∧ g.tables.size = table := by
  by_cases hs : s < g.frames.size
  · exact .inl ⟨hs, h.grows.outline hs ▸ ho⟩
  · obtain ⟨i, _, rfl, he⟩ := outline_copied h.frames_size h.outline (Nat.not_lt.mp hs) ho
    obtain ⟨rfl, rfl⟩ := Prod.mk.inj he
    exact .inr ⟨i, rfl, rfl, rfl⟩

private theorem split (hg : g.Sound) : Split (.after g) g' where
  table := by
    intro s table parent ho
    rcases h.outline_cases ho with ⟨hs, ho⟩ | ⟨i, rfl, -, rfl⟩
    · simp [Border.after, hs, hg.table_lt ho]
    · simp [Border.after]
  parent := by
    intro s p table ho
    rcases h.outline_cases ho with ⟨hs, ho⟩ | ⟨i, rfl, hp, -⟩
    · have hp : p < g.frames.size := Nat.lt_trans (hg.parent ho).1 hs
      simp [Border.after, hs, hp]
    · cases i with
      | zero => cases hp
      | succ i =>
        obtain rfl : g.frames.size + i = p := Option.some.inj hp
        simp [Border.after]

private theorem confined_original (hg : g.Sound) {cells : List (Option Cell)}
    (hcells : ∀ c, some c ∈ cells → c.table < g.tables.size) :
    Confined (.after g) .original (List.range g.frames.size) ⟨g', cells⟩ where
  split := h.split hg
  scope := by
    intro s hs
    have hlt : s < g.frames.size := List.mem_range.mp hs
    have hlt' : s < g'.frames.size := by rw [h.frames_size]; omega
    exact ⟨by simp [Border.after, hlt], hlt'⟩
  cell hc := by simp [Border.after, hcells _ hc]

private theorem confined_copy (hg : g.Sound) :
    Confined (.after g) .copy (copies g.frames.size ps.length) ⟨g', []⟩ where
  split := h.split hg
  scope := by
    intro s hs
    rw [mem_copies, ← h.frames_size] at hs
    exact ⟨by simp [Border.after, hs.1], hs.2⟩
  cell hc := absurd hc List.not_mem_nil

private theorem chain_last :
    (last? g.frames.size ps.length).elim [] g'.chain = copies g.frames.size ps.length := by
  cases hk : ps.length with
  | zero => rfl
  | succ k => exact h.chain (by omega)

private theorem twin (hg : g.Sound) {s : Nat} (hs : g.chain s = ps) :
    Twin ps (copies g.frames.size ps.length) g g' where
  left := hg
  right := h.sound
  length := (length_copies _ _).symm
  chain_left := by
    intro d p hp
    rw [← hs] at hp ⊢
    exact hg.chain_eq_drop hp
  chain_right := by
    intro d q hq
    have hlast := h.chain_last
    cases hk : ps.length with
    | zero => simp [hk, copies] at hq
    | succ k =>
      rw [hk] at hq hlast
      rw [← hlast] at hq ⊢
      exact h.sound.chain_eq_drop hq
  value := by
    rintro ⟨p, name⟩ ⟨q, _⟩ ⟨⟨d, hp, hq⟩, rfl⟩
    exact (h.value hp hq name).symm

end Copies

/-- A cell that was asked for is the cell of some binding. -/
theorem Ledger.Describes.table_lt {l : Ledger} {σ : Session} (h : l.Describes σ) {c : Cell}
    (hc : some c ∈ σ.cells) : c.table < σ.graph.tables.size := by
  rw [h.cells] at hc
  obtain ⟨b, -, hb⟩ := List.mem_map.mp hc
  obtain ⟨b, -, hb⟩ := Option.bind_eq_some_iff.mp hb
  exact (h.sound.lt_of_cell? hb).2

/-- A snapshot is an independent copy.  Whatever happened before and in whatever order the names
are gone through, it has as many levels as the chain that it was made from, with the same names and
values.  When from then on all scopes of the original and those of the copy are used in any mixture,
the original sees what it would see without the copy, and the copy sees what the chain itself would
show if only the uses of the copy were made of it. -/
theorem snapshot_bisimilar (history : List Event) (s : Nat) (order : Order) :
    let σ := (history.mapM Session.perform {}).2
    let snapshot := σ.graph.snapshotAlong order s
    let ps := σ.graph.chain s
    let qs := snapshot.1.elim [] snapshot.2.chain
    let scopes : Side → List Nat := fun
      | .original => List.range σ.graph.frames.size
      | .copy => qs
    let cells : Side → List (Option Cell) := fun
      | .original => σ.cells
      | .copy => []
    qs.length = ps.length ∧
    (∀ (d p q : Nat) (name : String), ps[d]? = some p → qs[d]? = some q →
      snapshot.2.value? ⟨q, name⟩ = σ.graph.value? ⟨p, name⟩) ∧
    ∀ us : List (Side × Use),
      let seen := (us.mapM (Shared.use scopes) ⟨snapshot.2, cells⟩).1
      ofSide .original seen =
        ((ofSide .original us).mapM (Session.use (scopes .original)) σ).1 ∧
      ofSide .copy seen = ((ofSide .copy us).mapM (Session.use ps) ⟨σ.graph, []⟩).1 := by
  intro σ snapshot ps qs scopes cells
  obtain ⟨l, hl⟩ := perform_describes history
  have hg : σ.graph.Sound := hl.sound
  have hcopies : Copies σ.graph snapshot.2 ps := snapshotAlong_copies hg order s
  have hqs : qs = copies σ.graph.frames.size ps.length := by
    rw [← hcopies.chain_last]
    exact congrArg (Option.elim · [] snapshot.2.chain) (snapshotAlong_fst order s σ.graph)
  have htwin : Twin ps qs σ.graph snapshot.2 := hqs ▸ hcopies.twin hg rfl
  have hconfined (y : Side) :
      Confined (.after σ.graph) y (scopes y) (Shared.part ⟨snapshot.2, cells⟩ y) := by
    cases y with
    | original => exact hcopies.confined_original hg fun c hc => hl.table_lt hc
    | copy =>
      have hcopy := hcopies.confined_copy hg
      rw [← hqs] at hcopy
      exact hcopy
  refine ⟨htwin.length.symm, fun d p q name hp hq => ?_, fun us => ⟨?_, ?_⟩⟩
  · have hb : Paired ps qs ⟨p, name⟩ ⟨q, name⟩ := ⟨⟨d, hp, hq⟩, rfl⟩
    exact (htwin.value hb).symm
  · exact Apart.run ⟨hconfined, hcopies.grows.agree, rfl⟩ us
  · have hsame : Session.Twins ps qs ⟨σ.graph, []⟩ ⟨snapshot.2, []⟩ := ⟨htwin, .nil⟩
    have hrun := mapM_simulates (Session.Twins ps qs) (Session.use ps) (Session.use qs)
      (fun u _ _ h => h.use u) (ofSide .copy us) _ _ hsame
    have halone : Apart (.after σ.graph) scopes .copy ⟨snapshot.2, cells⟩ ⟨snapshot.2, []⟩ :=
      ⟨hconfined, .refl _ _ _, rfl⟩
    rw [hrun.1]
    exact halone.run us

/-- The scopes 1 and 0 are copied to 6 and 5, and the `x` of scope 1 with them. -/
theorem snapshot_bisimilar_shadowing :
    let σ := ((shadowing.map Event.act).mapM Session.perform {}).2
    let snapshot := σ.graph.snapshotAlong .asBound 1
    (σ.graph.chain 1 = [1, 0] ∧ snapshot.1.elim [] snapshot.2.chain = [6, 5]) ∧
    (σ.graph.value? ⟨1, "x"⟩).isSome = true ∧
    snapshot.2.value? ⟨6, "x"⟩ = σ.graph.value? ⟨1, "x"⟩ ∧
    snapshot.2.value? ⟨5, "x"⟩ = σ.graph.value? ⟨0, "x"⟩ := by
  intro σ snapshot
  have hps : σ.graph.chain 1 = [1, 0] := by decide +kernel
  have hqs : snapshot.1.elim [] snapshot.2.chain = [6, 5] := by decide +kernel
  obtain ⟨_, hvalue, _⟩ := snapshot_bisimilar (shadowing.map Event.act) 1 .asBound
  refine ⟨⟨hps, hqs⟩, by decide +kernel, ?_, ?_⟩
  · exact hvalue 0 1 6 "x" (congrArg (·[0]?) hps) (congrArg (·[0]?) hqs)
  · exact hvalue 1 0 5 "x" (congrArg (·[1]?) hps) (congrArg (·[1]?) hqs)

end HdlExpr.ScopeGraph
