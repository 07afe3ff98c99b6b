import Mathlib.Data.List.Sort
import Mathlib.Data.String.Basic
import HdlExpr.Proofs.Fold.Matching
import HdlExpr.Proofs.Scope.Session

/-!
# Twins

Two chains of scopes are twins when they have the same number of levels and each level binds the
same names to the same values, in whatever cells.  As long as the same is done to both, they stay
twins and give the same answers; evaluations over them give the same outcomes.
-/

namespace HdlExpr.ScopeGraph

open Run

/-! ## Evaluation -/

/-- Evaluates an expression over a scope and takes over what it stores.  Where there is no scope,
nothing is bound. -/
def evaluate (g : ScopeGraph) (s : Option Nat) (c : Fold.Context) (n : NodeId) :
    Fold.Outcome × ScopeGraph :=
  match s.filter (· < g.frames.size) with
  | some s =>
    let out := Fold.evaluate c n (g.view s)
    (out, g.update s out.scope)
  | none => (Fold.evaluate c n .empty, g)

/-- What happens in a session: an action, or the evaluation of an expression. -/
inductive Event where
  | act (a : Action)
  | evaluate (s : Option Nat) (c : Fold.Context) (n : NodeId)

inductive Seen where
  | answer (a : Answer)
  | outcome (v : Value) (reports : List Report)

def Session.perform : Event → StateM Session Seen
  | .act a => Seen.answer <$> Session.act a
  | .evaluate s c n => fun σ =>
    let (out, g) := σ.graph.evaluate s c n
    (.outcome out.value out.reports, { σ with graph := g })

/-- Stores that an evaluation makes are stores through names that are visible. -/
theorem evaluate_stores (g : ScopeGraph) (s : Nat) (c : Fold.Context) (n : NodeId) :
    Scope.Stores (fun i j => i = j ∧ ∃ name, (g.view s).lookup name = some i) (g.view s) (g.view s)
      (Fold.evaluate c n (g.view s)).scope (Fold.evaluate c n (g.view s)).scope :=
  (Fold.evaluate_matches (Scope.matches_self (g.view s)) c n).2.2

/-- After an evaluation a session has an account again. -/
theorem Ledger.Describes.evaluate {l : Ledger} {σ : Session} (h : Describes l σ) (s : Option Nat)
    (c : Fold.Context) (n : NodeId) :
    ∃ l', Describes l' { σ with graph := (σ.graph.evaluate s c n).2 } := by
  rw [ScopeGraph.evaluate]
  cases hs : s.filter (· < σ.graph.frames.size) with
  | none => exact ⟨l, h⟩
  | some s =>
    have hlt : s < σ.graph.frames.size := by simpa using (Option.filter_eq_some_iff.mp hs).2
    have hstores := evaluate_stores σ.graph s c n
    -- Each store goes to the cell of a binding, and no store moves a binding.
    suffices hall : ∀ a b,
        Scope.Stores (fun i j => i = j ∧ ∃ name, (σ.graph.view s).lookup name = some i)
          (σ.graph.view s) (σ.graph.view s) a b →
        (∃ l', Describes l' { σ with graph := σ.graph.update s a }) ∧
          (σ.graph.update s a).cell? = σ.graph.cell? from (hall _ _ hstores).1
    intro a b hab
    induction hab with
    | done =>
      rw [update_view (Array.getElem?_eq_getElem hlt)]
      exact ⟨⟨l, h⟩, rfl⟩
    | @store a' b' i j _ hr v ih =>
      obtain ⟨⟨l', hl'⟩, hcell⟩ := ih
      obtain ⟨-, name, hname⟩ := hr
      have hlookup : σ.graph.lookup s name = some ⟨σ.graph.tableOf s, i⟩ := by
        rw [lookup, hname]
        rfl
      rw [h.sound.lookup_eq_nearest?] at hlookup
      obtain ⟨b, _, hb⟩ := Option.bind_eq_some_iff.mp hlookup
      rw [← hcell] at hb
      rw [update_store]
      exact ⟨⟨_, hl'.write (store_writes hl'.sound hb v)⟩, hcell⟩

/-- Whatever happened in a session, it has an account. -/
theorem perform_describes (history : List Event) :
    ∃ l, Ledger.Describes l (history.mapM Session.perform {}).2 := by
  refine mapM_keeps (fun σ => ∃ l, Ledger.Describes l σ) Session.perform ?_ history {}
    ⟨{}, Ledger.describes_empty⟩
  rintro (a | ⟨s, c, n⟩) σ ⟨l, h⟩
  · exact ⟨_, (h.step a).2⟩
  · exact h.evaluate s c n

/-! ## Chains in use -/

/-- What is done to some scopes, which are referred to by their places in a list. -/
inductive Use where
  | access (a : Access)
  | evaluate (place : Option Nat) (c : Fold.Context) (n : NodeId)

/-- The scope at a place, if there is one. -/
def place (ss : List Nat) (d : Option Nat) : Option Nat := d.bind (ss[·]?)

def Access.among (ss : List Nat) : Access → Access
  | .set d name v => .set (place ss d) name v
  | .lookup d name => .lookup (place ss d) name
  | .load i => .load i
  | .store i v => .store i v

def Use.among (ss : List Nat) : Use → Event
  | .access a => .act (.access (a.among ss))
  | .evaluate d c n => .evaluate (place ss d) c n

def Session.use (ss : List Nat) (u : Use) : StateM Session Seen := Session.perform (u.among ss)

/-! ## Twins -/

/-- Two scopes at the same place. -/
def Beside (ps qs : List Nat) (p q : Nat) : Prop := ∃ d : Nat, ps[d]? = some p ∧ qs[d]? = some q

/-- The same name in two scopes at the same place. -/
structure Paired (ps qs : List Nat) (b b' : Binding) : Prop where
  scope : Beside ps qs b.scope b'.scope
  name : b.name = b'.name

/-- Two chains of the same length whose names have the same values. -/
structure Twin (ps qs : List Nat) (g g' : ScopeGraph) : Prop where
  left : g.Sound
  right : g'.Sound
  length : ps.length = qs.length
  chain_left {d p : Nat} (h : ps[d]? = some p) : g.chain p = ps.drop d
  chain_right {d q : Nat} (h : qs[d]? = some q) : g'.chain q = qs.drop d
  value {b b' : Binding} (h : Paired ps qs b b') : g.value? b = g'.value? b'

/-- Cells of the same name at the same place. -/
def CellPair (ps qs : List Nat) (g g' : ScopeGraph) (c c' : Cell) : Prop :=
  ∃ b b', Paired ps qs b b' ∧ g.cell? b = some c ∧ g'.cell? b' = some c'

private theorem forall₂_beside {ps qs : List Nat} (h : ps.length = qs.length) (d : Nat) :
    List.Forall₂ (Beside ps qs) (ps.drop d) (qs.drop d) := by
  rw [List.forall₂_iff_get]
  refine ⟨by rw [List.length_drop, List.length_drop, h], fun i hi hi' => ⟨d + i, ?_, ?_⟩⟩
  · rw [List.get_eq_getElem, List.getElem_drop, List.getElem?_eq_getElem]
  · rw [List.get_eq_getElem, List.getElem_drop, List.getElem?_eq_getElem]

/-- A scope of a chain stands at one place only, since the chain goes on with the scopes around
it. -/
theorem place_unique {g : ScopeGraph} {ps : List Nat}
    (h : ∀ {d p : Nat}, ps[d]? = some p → g.chain p = ps.drop d) {d d' p : Nat}
    (hd : ps[d]? = some p) (hd' : ps[d']? = some p) : d = d' := by
  have hlt := (List.getElem?_eq_some_iff.mp hd).1
  have hlt' := (List.getElem?_eq_some_iff.mp hd').1
  have hlength := congrArg List.length ((h hd).symm.trans (h hd'))
  rw [List.length_drop, List.length_drop] at hlength
  omega

namespace Twin

variable {ps qs : List Nat} {g g' : ScopeGraph} (h : Twin ps qs g g')

include h

private theorem paired_unique {b b' b₁ b₁' : Binding} (hb : Paired ps qs b b')
    (hb₁ : Paired ps qs b₁ b₁') : b = b₁ ↔ b' = b₁' := by
  obtain ⟨⟨d, hp, hq⟩, hname⟩ := hb
  obtain ⟨⟨d₁, hp₁, hq₁⟩, hname₁⟩ := hb₁
  obtain ⟨p, x⟩ := b
  obtain ⟨q, x'⟩ := b'
  obtain ⟨p₁, x₁⟩ := b₁
  obtain ⟨q₁, x₁'⟩ := b₁'
  simp only at hp hq hp₁ hq₁ hname hname₁
  subst hname hname₁
  rw [Binding.mk.injEq, Binding.mk.injEq]
  refine and_congr_left fun _ => ⟨?_, ?_⟩
  · rintro rfl
    obtain rfl := place_unique h.chain_left hp hp₁
    exact Option.some.inj (hq.symm.trans hq₁)
  · rintro rfl
    obtain rfl := place_unique h.chain_right hq hq₁
    exact Option.some.inj (hp.symm.trans hp₁)

private theorem isSome_cell? {b b' : Binding} (hb : Paired ps qs b b') :
    (g.cell? b).isSome = (g'.cell? b').isSome := by
  rw [← h.left.isSome_value?, ← h.right.isSome_value?, h.value hb]

private theorem cellPair_unique {c c' c₁ c₁' : Cell} (hc : CellPair ps qs g g' c c')
    (hc₁ : CellPair ps qs g g' c₁ c₁') : c = c₁ ↔ c' = c₁' := by
  obtain ⟨b, b', hb, hl, hr⟩ := hc
  obtain ⟨b₁, b₁', hb₁, hl₁, hr₁⟩ := hc₁
  constructor
  · rintro rfl
    have he := (h.paired_unique hb hb₁).mp (h.left.injective hl hl₁)
    rw [he, hr₁] at hr
    exact (Option.some.inj hr).symm
  · rintro rfl
    have he := (h.paired_unique hb hb₁).mpr (h.right.injective hr hr₁)
    rw [he, hl₁] at hl
    exact (Option.some.inj hl).symm

private theorem stored_eq {c c' : Cell} (hc : CellPair ps qs g g' c c') :
    g.stored? c = g'.stored? c' := by
  obtain ⟨b, b', hb, hl, hr⟩ := hc
  have hv := h.value hb
  rwa [value?, value?, hl, hr] at hv

private theorem load_eq {c c' : Cell} (hc : CellPair ps qs g g' c c') : g.load c = g'.load c' := by
  have hv := h.stored_eq hc
  rw [stored?, stored?] at hv
  rw [load, load, hv]

private theorem write {b b' : Binding} {c c' : Cell} {v : Value} {g₁ g₁' : ScopeGraph}
    (hb : Paired ps qs b b') (hw : Writes b c v g g₁) (hw' : Writes b' c' v g' g₁') :
    Twin ps qs g₁ g₁' where
  left := h.left.write hw
  right := h.right.write hw'
  length := h.length
  chain_left hp := (hw.chain _).trans (h.chain_left hp)
  chain_right hq := (hw'.chain _).trans (h.chain_right hq)
  value := by
    intro b₁ b₁' hb₁
    rw [hw.value, hw'.value, h.value hb₁]
    simp only [h.paired_unique hb₁ hb]

private theorem store {c c' : Cell} (hc : CellPair ps qs g g' c c') (v : Value) :
    Twin ps qs (g.store c v) (g'.store c' v) := by
  obtain ⟨b, b', hb, hl, hr⟩ := hc
  exact h.write hb (store_writes h.left hl v) (store_writes h.right hr v)

private theorem lookup {p q : Nat} (hpq : Beside ps qs p q) (name : String) :
    Option.Rel (CellPair ps qs g g') (g.lookup p name) (g'.lookup q name) := by
  obtain ⟨d, hp, hq⟩ := hpq
  rw [h.left.lookup_eq, h.right.lookup_eq, h.chain_left hp, h.chain_right hq]
  have hall := forall₂_beside h.length d
  generalize ps.drop d = ps', qs.drop d = qs' at hall
  induction hall with
  | nil => exact .none
  | @cons p' q' _ _ hpq' _ ih =>
    have hb : Paired ps qs ⟨p', name⟩ ⟨q', name⟩ := ⟨hpq', rfl⟩
    have hsome := h.isSome_cell? hb
    rw [List.findSome?_cons, List.findSome?_cons]
    cases hc : g.cell? ⟨p', name⟩ with
    | none =>
      rw [hc, Option.isSome_none, eq_comm, Option.isSome_eq_false_iff, Option.isNone_iff_eq_none]
        at hsome
      rw [hsome]
      exact ih
    | some c =>
      rw [hc, Option.isSome_some, eq_comm, Option.isSome_iff_exists] at hsome
      obtain ⟨c', hc'⟩ := hsome
      rw [hc']
      exact .some ⟨_, _, hb, hc, hc'⟩

/-- Levels at the same place have the same names, perhaps in another order. -/
theorem perm_names {p q : Nat} (hpq : Beside ps qs p q) :
    ((g.levelOf p).map Prod.fst).Perm ((g'.levelOf q).map Prod.fst) := by
  rw [List.perm_ext_iff_of_nodup (h.left.nodup p) (h.right.nodup q)]
  intro name
  have hb : Paired ps qs ⟨p, name⟩ ⟨q, name⟩ := ⟨hpq, rfl⟩
  have hsome := h.isSome_cell? hb
  rw [cell?, cell?, Option.isSome_map, Option.isSome_map] at hsome
  rw [← isSome_slot?, ← isSome_slot?, hsome]

end Twin

private theorem sortedNames_perm {xs ys : List String} (h : xs.Perm ys) :
    Scope.sortedNames xs = Scope.sortedNames ys := by
  have hsorted (zs : List String) := List.pairwise_mergeSort' (· ≤ ·) zs
  have hperm : (xs.mergeSort fun a b => decide (a ≤ b)).Perm
      (ys.mergeSort fun a b => decide (a ≤ b)) :=
    (List.mergeSort_perm xs _).trans (h.trans (List.mergeSort_perm ys _).symm)
  rw [Scope.sortedNames, Scope.sortedNames, hperm.eq_of_pairwise' (hsorted xs) (hsorted ys)]

namespace Twin

variable {ps qs : List Nat} {g g' : ScopeGraph} (h : Twin ps qs g g')

include h

private theorem names_eq {p q : Nat} (hpq : Beside ps qs p q) :
    (g.view p).names = (g'.view q).names := by
  obtain ⟨d, hp, hq⟩ := hpq
  apply sortedNames_perm
  simp only [view, levels_eq_map, h.chain_left hp, h.chain_right hq]
  have hall := forall₂_beside h.length d
  generalize ps.drop d = ps', qs.drop d = qs' at hall
  induction hall with
  | nil => exact .nil
  | cons hpq' _ ih => exact (h.perm_names hpq').append ih

private theorem view_matches {p q : Nat} (hpq : Beside ps qs p q) :
    Scope.Matches (fun i j => CellPair ps qs g g' ⟨g.tableOf p, i⟩ ⟨g'.tableOf q, j⟩)
      (g.view p) (g'.view q) where
  lookup name := by
    have hl := h.lookup hpq name
    simp only [ScopeGraph.lookup] at hl
    generalize (g.view p).lookup name = i at hl ⊢
    generalize (g'.view q).lookup name = j at hl ⊢
    cases i with
    | none =>
      cases j with
      | none => exact .none
      | some j => cases hl
    | some i =>
      cases j with
      | none => cases hl
      | some j =>
        cases hl with
        | some hr => exact .some hr
  names := h.names_eq hpq
  cells hr := by
    have hv := h.stored_eq hr
    rwa [← view_cells (s := p) rfl, ← view_cells (s := q) rfl] at hv
  unique hr hr' := by
    have hu := h.cellPair_unique hr hr'
    simpa [Cell.mk.injEq] using hu

private theorem lt_size {p q : Nat} (hpq : Beside ps qs p q) :
    p < g.frames.size ∧ q < g'.frames.size := by
  obtain ⟨d, hp, hq⟩ := hpq
  have hlt := (List.getElem?_eq_some_iff.mp hp).1
  have hlt' := (List.getElem?_eq_some_iff.mp hq).1
  constructor
  · by_contra hge
    have hnil := (h.chain_left hp).symm.trans (chain_eq_nil (Nat.not_lt.mp hge))
    rw [List.drop_eq_nil_iff] at hnil
    omega
  · by_contra hge
    have hnil := (h.chain_right hq).symm.trans (chain_eq_nil (Nat.not_lt.mp hge))
    rw [List.drop_eq_nil_iff] at hnil
    omega

/-- Evaluations over scopes at the same place have the same outcome and leave twins. -/
theorem evaluate {p q : Nat} (hpq : Beside ps qs p q) (c : Fold.Context) (n : NodeId) :
    (g.evaluate (some p) c n).1.value = (g'.evaluate (some q) c n).1.value ∧
      (g.evaluate (some p) c n).1.reports = (g'.evaluate (some q) c n).1.reports ∧
      Twin ps qs (g.evaluate (some p) c n).2 (g'.evaluate (some q) c n).2 ∧
      (g.evaluate (some p) c n).2.cell? = g.cell? ∧
      (g'.evaluate (some q) c n).2.cell? = g'.cell? := by
  obtain ⟨hlt, hlt'⟩ := h.lt_size hpq
  simp only [ScopeGraph.evaluate, Option.filter_some, hlt, hlt', decide_true, if_true]
  obtain ⟨hvalue, hreports, hstores⟩ := Fold.evaluate_matches (h.view_matches hpq) c n
  refine ⟨hvalue, hreports, ?_⟩
  generalize (Fold.evaluate c n (g.view p)).scope = a, (Fold.evaluate c n (g'.view q)).scope = b
    at hstores
  induction hstores with
  | done =>
    rw [update_view (Array.getElem?_eq_getElem hlt), update_view (Array.getElem?_eq_getElem hlt')]
    exact ⟨h, rfl, rfl⟩
  | @store a b i j _ hr v ih =>
    obtain ⟨htwin, hcell, hcell'⟩ := ih
    rw [update_store, update_store]
    refine ⟨htwin.store ?_ v, hcell, hcell'⟩
    obtain ⟨b, b', hb, hl, hr⟩ := hr
    rw [← hcell] at hl
    rw [← hcell'] at hr
    exact ⟨b, b', hb, hl, hr⟩

end Twin

/-! ## Sessions over twins -/

private theorem place_cases {ps qs : List Nat} (h : ps.length = qs.length) (d : Option Nat) :
    (∃ p q, Beside ps qs p q ∧ place ps d = some p ∧ place qs d = some q) ∨
      (place ps d = none ∧ place qs d = none) := by
  cases d with
  | none => exact .inr ⟨rfl, rfl⟩
  | some d =>
    by_cases hd : d < ps.length
    · have hp := List.getElem?_eq_getElem hd
      have hq := List.getElem?_eq_getElem (h ▸ hd : d < qs.length)
      exact .inl ⟨_, _, ⟨d, hp, hq⟩, hp, hq⟩
    · exact .inr ⟨List.getElem?_eq_none (by omega), List.getElem?_eq_none (by omega)⟩

namespace Session

/-- Sessions over twins in which the same cells were asked for. -/
structure Twins (ps qs : List Nat) (σ τ : Session) : Prop where
  graph : Twin ps qs σ.graph τ.graph
  cells : List.Forall₂ (Option.Rel (CellPair ps qs σ.graph τ.graph)) σ.cells τ.cells

namespace Twins

variable {ps qs : List Nat} {σ τ : Session} (h : Twins ps qs σ τ)

include h

private theorem cell (i : Nat) :
    Option.Rel (CellPair ps qs σ.graph τ.graph) (σ.cell? i) (τ.cell? i) := by
  have hcells := h.cells
  rw [cell?, cell?]
  generalize σ.cells = cs, τ.cells = cs' at hcells
  induction hcells generalizing i with
  | nil => exact .none
  | cons hc _ ih =>
    cases i with
    | zero => exact hc
    | succ i => exact ih i

/-- Cells that belonged together still do in graphs that keep the cells of their bindings. -/
theorem cells_of_kept {g g' : ScopeGraph}
    (kept : ∀ {b c}, σ.graph.cell? b = some c → g.cell? b = some c)
    (kept' : ∀ {b c}, τ.graph.cell? b = some c → g'.cell? b = some c) :
    List.Forall₂ (Option.Rel (CellPair ps qs g g')) σ.cells τ.cells := by
  refine h.cells.imp fun c c' hcc => ?_
  cases hcc with
  | none => exact .none
  | some hcc =>
    obtain ⟨b, b', hb, hl, hr⟩ := hcc
    exact .some ⟨b, b', hb, kept hl, kept' hr⟩

private theorem ask {c c' : Option Cell} (hc : Option.Rel (CellPair ps qs σ.graph τ.graph) c c') :
    Twins ps qs { σ with cells := σ.cells ++ [c] } { τ with cells := τ.cells ++ [c'] } where
  graph := h.graph
  cells := List.rel_append h.cells (.cons hc .nil)

private theorem access (a : Access) :
    (Session.access (a.among ps) σ).1 = (Session.access (a.among qs) τ).1 ∧
      Twins ps qs (Session.access (a.among ps) σ).2 (Session.access (a.among qs) τ).2 := by
  cases a with
  | set d name v =>
    simp only [Access.among]
    rcases place_cases h.graph.length d with ⟨p, q, hpq, hp, hq⟩ | ⟨hp, hq⟩
    · obtain ⟨hlt, hlt'⟩ := h.graph.lt_size hpq
      obtain ⟨⟨c, g⟩, hset⟩ :=
        Option.isSome_iff_exists.mp ((isSome_set? σ.graph p name v).mpr hlt)
      obtain ⟨⟨c', g'⟩, hset'⟩ :=
        Option.isSome_iff_exists.mp ((isSome_set? τ.graph q name v).mpr hlt')
      have hw := set?_writes h.graph.left hset
      have hw' := set?_writes h.graph.right hset'
      have hshows := hw.shows h.graph.left
      have hshows' := hw'.shows h.graph.right
      have hb : Paired ps qs ⟨p, name⟩ ⟨q, name⟩ := ⟨hpq, rfl⟩
      have hnext : Twins ps qs { σ with graph := g } { τ with graph := g' } :=
        ⟨h.graph.write hb hw hw', h.cells_of_kept hshows.kept hshows'.kept⟩
      simp only [Session.access, hp, hq, Option.bind_some, hset, hset']
      exact ⟨trivial, hnext.ask (.some ⟨_, _, hb, hshows.cell, hshows'.cell⟩)⟩
    · simp only [Session.access, hp, hq, Option.bind_none]
      exact ⟨trivial, h.ask .none⟩
  | lookup d name =>
    have hfound : Option.Rel (CellPair ps qs σ.graph τ.graph)
        ((place ps d).bind (σ.graph.lookup · name))
        ((place qs d).bind (τ.graph.lookup · name)) := by
      rcases place_cases h.graph.length d with ⟨p, q, hpq, hp, hq⟩ | ⟨hp, hq⟩
      · rw [hp, hq]
        exact h.graph.lookup hpq name
      · rw [hp, hq]
        exact .none
    refine ⟨?_, h.ask hfound⟩
    simp only [Access.among, Session.access]
    generalize (place ps d).bind (σ.graph.lookup · name) = c at hfound ⊢
    generalize (place qs d).bind (τ.graph.lookup · name) = c' at hfound ⊢
    cases hfound with
    | none => rfl
    | some => rfl
  | load i =>
    have hcell := h.cell i
    refine ⟨?_, h⟩
    simp only [Access.among, Session.access]
    generalize σ.cell? i = c, τ.cell? i = c' at hcell
    cases hcell with
    | none => rfl
    | some hc => rw [Option.map_some, Option.map_some, h.graph.load_eq hc]
  | store i v =>
    have hcell := h.cell i
    simp only [Access.among, Session.access]
    generalize σ.cell? i = c, τ.cell? i = c' at hcell
    cases hcell with
    | none => exact ⟨rfl, h⟩
    | some hc => exact ⟨rfl, h.graph.store hc v, h.cells⟩

/-- Whatever is done to both, the answers are the same. -/
theorem use (u : Use) :
    (Session.use ps u σ).1 = (Session.use qs u τ).1 ∧
      Twins ps qs (Session.use ps u σ).2 (Session.use qs u τ).2 := by
  cases u with
  | access a =>
    obtain ⟨hanswer, hnext⟩ := h.access a
    exact ⟨congrArg Seen.answer hanswer, hnext⟩
  | evaluate d c n =>
    simp only [Session.use, Use.among, Session.perform]
    rcases place_cases h.graph.length d with ⟨p, q, hpq, hp, hq⟩ | ⟨hp, hq⟩
    · obtain ⟨hvalue, hreports, htwin, hcell, hcell'⟩ := h.graph.evaluate hpq c n
      rw [hp, hq, hvalue, hreports]
      exact ⟨rfl, htwin, h.cells_of_kept (fun hc => hcell ▸ hc) (fun hc => hcell' ▸ hc)⟩
    · rw [hp, hq]
      exact ⟨rfl, h⟩

end Twins

end Session

end HdlExpr.ScopeGraph
