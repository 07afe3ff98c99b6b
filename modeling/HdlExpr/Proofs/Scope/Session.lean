import HdlExpr.Proofs.Run
import HdlExpr.Proofs.Scope.Copy

/-!
# Sessions

In a session, scopes are made inside of others, names are set and looked up, cells are read and
written, and chains of scopes are copied, in any order.  A ledger keeps account of the same session
without any cells: it knows for each scope which scopes are visible from it, and for each name of
each scope the value that was written to it last.  Both give the same answers.
-/

namespace HdlExpr.ScopeGraph

open Run

/-! ## Actions -/

/-- An access to a scope, if there is one, or to a cell.  Cells have the numbers of the accesses
that asked for them. -/
inductive Access where
  | set (s : Option Nat) (name : String) (v : Value)
  | lookup (s : Option Nat) (name : String)
  | load (cell : Nat)
  | store (cell : Nat) (v : Value)

inductive Action where
  /-- A new scope, inside of another one if that exists. -/
  | enter (parent : Option Nat)
  | snapshot (s : Option Nat) (order : Order)
  | access (a : Access)

inductive Answer where
  | scope (s : Option Nat)
  | cell (found : Bool)
  | value (v : Value)
  | done

structure Session where
  graph : ScopeGraph := {}
  /-- The cells that were asked for; there is none where nothing was found. -/
  cells : List (Option Cell) := []

namespace Session

def cell? (σ : Session) (i : Nat) : Option Cell := (σ.cells[i]?).join

def access : Access → StateM Session Answer
  | .set s name v => fun σ =>
    match s.bind (σ.graph.set? · name v) with
    | some (c, g) => (.cell true, ⟨g, σ.cells ++ [some c]⟩)
    | none => (.cell false, { σ with cells := σ.cells ++ [none] })
  | .lookup s name => fun σ =>
    let c := s.bind (σ.graph.lookup · name)
    (.cell c.isSome, { σ with cells := σ.cells ++ [c] })
  | .load i => fun σ => (.value (((σ.cell? i).map σ.graph.load).getD .invalid), σ)
  | .store i v => fun σ =>
    match σ.cell? i with
    | some c => (.done, { σ with graph := σ.graph.store c v })
    | none => (.done, σ)

def act : Action → StateM Session Answer
  | .enter parent => fun σ =>
    let (s, g) := σ.graph.enter (parent.filter (· < σ.graph.frames.size))
    (.scope (some s), { σ with graph := g })
  | .snapshot s order => fun σ =>
    match s with
    | some s =>
      let (copy, g) := σ.graph.snapshotAlong order s
      (.scope copy, { σ with graph := g })
    | none => (.scope none, σ)
  | .access a => access a

end Session

/-- The account of a session. -/
structure Ledger where
  /-- The scopes that are visible from each scope, innermost first. -/
  chains : List (List Nat) := []
  /-- The value that was written last. -/
  latest? : Binding → Option Value := fun _ => none
  /-- The bindings that were asked for. -/
  cells : List (Option Binding) := []

namespace Ledger

def chain (l : Ledger) (s : Nat) : List Nat := (l.chains[s]?).getD []

def cell? (l : Ledger) (i : Nat) : Option Binding := (l.cells[i]?).join

/-- The binding of a name in the nearest scope that binds it. -/
def nearest? (l : Ledger) (s : Nat) (name : String) : Option Binding :=
  ((l.chain s).map (⟨·, name⟩)).find? fun b => (l.latest? b).isSome

def write (l : Ledger) (b : Binding) (v : Value) : Ledger :=
  { l with latest? := fun b' => if b' = b then some v else l.latest? b' }

def access : Access → StateM Ledger Answer
  | .set s name v => fun l =>
    match s.filter (· < l.chains.length) with
    | some s => (.cell true, { l.write ⟨s, name⟩ v with cells := l.cells ++ [some ⟨s, name⟩] })
    | none => (.cell false, { l with cells := l.cells ++ [none] })
  | .lookup s name => fun l =>
    let b := s.bind (l.nearest? · name)
    (.cell b.isSome, { l with cells := l.cells ++ [b] })
  | .load i => fun l => (.value (((l.cell? i).bind l.latest?).map (·.asLvalue) |>.getD .invalid), l)
  | .store i v => fun l =>
    match l.cell? i with
    | some b => (.done, l.write b v)
    | none => (.done, l)

/-- New scopes with the values of the scopes of a chain. -/
def copy (l : Ledger) (ps : List Nat) : Ledger :=
  let qs := copies l.chains.length ps.length
  { l with
    chains := l.chains ++ (List.range ps.length).map fun i => copies l.chains.length (i + 1)
    latest? := fun b =>
      match (qs.zip ps).lookup b.scope with
      | some p => l.latest? ⟨p, b.name⟩
      | none => l.latest? b }

def act : Action → StateM Ledger Answer
  | .enter parent => fun l =>
    let outer := (parent.filter (· < l.chains.length)).elim [] l.chain
    (.scope (some l.chains.length),
      { l with chains := l.chains ++ [l.chains.length :: outer] })
  | .snapshot s _ => fun l =>
    let ps := s.elim [] l.chain
    (.scope (last? l.chains.length ps.length), l.copy ps)
  | .access a => access a

end Ledger

/-! ## Names as they are seen from a scope -/

/-- The binding of a name in the nearest scope that binds it. -/
def nearest? (g : ScopeGraph) (s : Nat) (name : String) : Option Binding :=
  ((g.chain s).map (⟨·, name⟩)).find? fun b => (g.cell? b).isSome

def get? (g : ScopeGraph) (s : Nat) (name : String) : Option Value :=
  (g.lookup s name).map g.load

section Names

variable {g g' : ScopeGraph}

theorem Sound.lookup_eq_nearest? (h : g.Sound) (s : Nat) (name : String) :
    g.lookup s name = (g.nearest? s name).bind g.cell? := by
  rw [h.lookup_eq, nearest?]
  induction g.chain s with
  | nil => rfl
  | cons p ps ih =>
    rw [List.findSome?_cons, List.map_cons, List.find?_cons]
    cases hc : g.cell? ⟨p, name⟩ with
    | none => exact ih
    | some c => simp [hc]

theorem Sound.isSome_value? (h : g.Sound) (b : Binding) :
    (g.value? b).isSome = (g.cell? b).isSome := by
  rw [value?]
  cases hc : g.cell? b with
  | none => rfl
  | some c =>
    obtain ⟨v, hv⟩ := h.stored hc
    rw [Option.bind_some, hv]
    rfl

theorem Sound.load_eq (h : g.Sound) {b : Binding} {c : Cell} (hc : g.cell? b = some c) :
    some (g.load c) = (g.value? b).map (·.asLvalue) := by
  obtain ⟨v, hv⟩ := h.stored hc
  rw [value?, hc, Option.bind_some, hv]
  rw [stored?] at hv
  rw [load, hv]
  rfl

/-- The value that a scope sees is that of the nearest scope that binds the name. -/
theorem Sound.get?_eq (h : g.Sound) (s : Nat) (name : String) :
    g.get? s name = (g.nearest? s name).bind fun b => (g.value? b).map (·.asLvalue) := by
  rw [get?, h.lookup_eq_nearest?]
  cases g.nearest? s name with
  | none => rfl
  | some b =>
    rw [Option.bind_some, Option.bind_some]
    cases hc : g.cell? b with
    | none => rw [value?, hc]; rfl
    | some c => exact h.load_eq hc

namespace Writes

variable {b : Binding} {c : Cell} {v : Value} (hw : Writes b c v g g')

include hw

theorem value (b' : Binding) :
    g'.value? b' = if b' = b then some v.asRvalue else g.value? b' := by
  rw [value?, hw.cell]
  by_cases hb : b' = b
  · rw [if_pos hb, if_pos hb, Option.bind_some, hw.stored, if_pos rfl]
  · rw [if_neg hb, if_neg hb, value?]
    cases hc : g.cell? b' with
    | none => rfl
    | some c' =>
      have hne : c' ≠ c := fun he => hb (hw.own (he ▸ hc))
      rw [Option.bind_some, Option.bind_some, hw.stored, if_neg hne]

private theorem load (c' : Cell) : g'.load c' = if c' = c then v.asLvalue else g.load c' := by
  have hstored := hw.stored c'
  simp only [stored?] at hstored
  rw [ScopeGraph.load, ScopeGraph.load, hstored]
  split <;> rfl

theorem chain (s : Nat) : g'.chain s = g.chain s := chain_congr fun t _ => congrFun hw.outline t

/-- A name that is not found in the binding that was written is found where it was found before. -/
theorem nearest? {t : Nat} {x : String} (hne : g'.nearest? t x ≠ some b) :
    g'.nearest? t x = g.nearest? t x := by
  simp only [ScopeGraph.nearest?, hw.chain] at hne ⊢
  generalize g.chain t = ps at hne ⊢
  induction ps with
  | nil => rfl
  | cons p ps ih =>
    rw [List.map_cons, List.find?_cons] at hne ⊢
    rw [List.find?_cons]
    by_cases hb : (⟨p, x⟩ : Binding) = b
    · simp [hw.cell, hb] at hne
    · have hcell : g'.cell? ⟨p, x⟩ = g.cell? ⟨p, x⟩ := by rw [hw.cell, if_neg hb]
      rw [hcell] at hne ⊢
      cases hc : (g.cell? ⟨p, x⟩).isSome with
      | true => rfl
      | false =>
        rw [hc] at hne
        exact ih hne

end Writes

/-- A value is seen through the binding that it was written to and through no other, from every
scope, and through the cells that the binding has. -/
structure Shows (b : Binding) (c : Cell) (v : Value) (g g' : ScopeGraph) : Prop where
  cell : g'.cell? b = some c
  kept {b' : Binding} {c' : Cell} (h : g.cell? b' = some c') : g'.cell? b' = some c'
  value (b' : Binding) : g'.value? b' = if b' = b then some v.asRvalue else g.value? b'
  load (c' : Cell) : g'.load c' = if c' = c then v.asLvalue else g.load c'
  get (t : Nat) (x : String) :
    g'.get? t x = if g'.nearest? t x = some b then some v.asLvalue else g.get? t x

theorem Writes.shows {b : Binding} {c : Cell} {v : Value} (hw : Writes b c v g g')
    (h : g.Sound) : Shows b c v g g' := by
  refine ⟨?_, ?_, hw.value, hw.load, fun t x => ?_⟩
  · rw [hw.cell, if_pos rfl]
  · intro b' c' hc
    rw [hw.cell]
    split
    case isTrue hb =>
      subst hb
      rw [hw.kept hc]
    case isFalse => exact hc
  · rw [(h.write hw).get?_eq, h.get?_eq]
    split
    case isTrue hn =>
      rw [hn, Option.bind_some, hw.value, if_pos rfl]
      rfl
    case isFalse hn =>
      rw [← hw.nearest? hn]
      cases hb : g'.nearest? t x with
      | none => rfl
      | some b' =>
        have hne : b' ≠ b := fun he => hn (he ▸ hb)
        rw [Option.bind_some, Option.bind_some, hw.value, if_neg hne]

end Names

/-! ## Copied chains -/

theorem chain_eq_nil {g : ScopeGraph} {s : Nat} (h : g.frames.size ≤ s) : g.chain s = [] := by
  rw [chain_eq_outline, outline_eq_none_iff.mpr h]

private theorem cell?_eq_none {g : ScopeGraph} {b : Binding} (h : g.frames.size ≤ b.scope) :
    g.cell? b = none := by
  rw [cell?, levelOf_eq_nil (outline_eq_none_iff.mpr h)]
  rfl

private theorem nodup_copies (n k : Nat) : (copies n k).Nodup := by
  induction k with
  | zero => exact List.nodup_nil
  | succ k ih =>
    refine List.nodup_cons.mpr ⟨?_, ih⟩
    rw [mem_copies]
    omega

private theorem lookup_zip_of_getElem? {qs ps : List Nat} {d q p : Nat} (hqs : qs.Nodup)
    (hq : qs[d]? = some q) (hp : ps[d]? = some p) : (qs.zip ps).lookup q = some p := by
  induction qs generalizing ps d with
  | nil => simp at hq
  | cons q' qs ih =>
    obtain ⟨hnot, hqs⟩ := List.nodup_cons.mp hqs
    cases ps with
    | nil => simp at hp
    | cons p' ps =>
      rw [List.zip_cons_cons, List.lookup_cons]
      cases d with
      | zero =>
        obtain rfl : q' = q := by simpa using hq
        obtain rfl : p' = p := by simpa using hp
        simp
      | succ d =>
        rw [List.getElem?_cons_succ] at hq hp
        have hne : (q == q') = false := by
          rw [beq_eq_false_iff_ne]
          rintro rfl
          exact hnot (List.mem_of_getElem? hq)
        rw [hne]
        exact ih hqs hq hp

private theorem lookup_zip_eq_none {qs ps : List Nat} {q : Nat} (h : q ∉ qs) :
    (qs.zip ps).lookup q = none := by
  rw [List.lookup_eq_none_iff]
  rintro ⟨q', p⟩ hm
  have hne : q ≠ q' := fun he => h (he ▸ (List.of_mem_zip hm).1)
  simpa using hne

namespace Copies

variable {g g' : ScopeGraph} {ps : List Nat} (h : Copies g g' ps)

include h

theorem chain {i : Nat} (hi : i < ps.length) :
    g'.chain (g.frames.size + i) = copies g.frames.size (i + 1) := by
  rw [h.sound.chain_eq_cons (h.outline hi)]
  induction i with
  | zero => rfl
  | succ i ih =>
    have hi' : i < ps.length := by omega
    have houter := h.sound.chain_eq_cons (h.outline hi')
    rw [last?, Option.elim_some, houter, ih hi']
    rfl

/-- Scopes that are no copies have the values that they had. -/
theorem value_of_notMem (hg : g.Sound) {b : Binding}
    (hb : b.scope ∉ copies g.frames.size ps.length) : g'.value? b = g.value? b := by
  rw [mem_copies] at hb
  by_cases hlt : b.scope < g.frames.size
  · rw [value?, value?, h.grows.cell hlt]
    cases hc : g.cell? b with
    | none => rfl
    | some c => exact h.grows.stored (hg.lt_of_cell? hc).2
  · have hold : g.cell? b = none := cell?_eq_none (Nat.not_lt.mp hlt)
    have hnew : g'.cell? b = none := by
      apply cell?_eq_none
      rw [h.frames_size]
      omega
    rw [value?, value?, hold, hnew]
    rfl

end Copies

/-! ## The account of a session -/

namespace Ledger

/-- A ledger knows the state of a session. -/
structure Describes (l : Ledger) (σ : Session) : Prop where
  sound : σ.graph.Sound
  size : l.chains.length = σ.graph.frames.size
  chain (s : Nat) : l.chain s = σ.graph.chain s
  value (b : Binding) : (l.latest? b).map (·.asRvalue) = σ.graph.value? b
  cells : σ.cells = l.cells.map (·.bind σ.graph.cell?)
  bound {b : Binding} (h : some b ∈ l.cells) : ∃ c, σ.graph.cell? b = some c

theorem describes_empty : Describes {} {} where
  sound := sound_empty
  size := rfl
  chain s := by rw [chain_eq_nil (Nat.zero_le s)]; rfl
  value b := by
    have hnone : ({} : ScopeGraph).cell? b = none := cell?_eq_none (Nat.zero_le _)
    rw [value?, hnone]
    rfl
  cells := rfl
  bound h := by simp at h

namespace Describes

variable {l : Ledger} {σ : Session} (h : Describes l σ)

include h

private theorem nearest (s : Nat) (name : String) :
    l.nearest? s name = σ.graph.nearest? s name := by
  have hsome (b : Binding) : (l.latest? b).isSome = (σ.graph.cell? b).isSome := by
    rw [← h.sound.isSome_value?, ← h.value, Option.isSome_map]
  simp only [Ledger.nearest?, ScopeGraph.nearest?, h.chain, hsome]

private theorem cell (i : Nat) : σ.cell? i = (l.cell? i).bind σ.graph.cell? := by
  rw [Session.cell?, h.cells, List.getElem?_map, Ledger.cell?]
  cases l.cells[i]? <;> rfl

private theorem cell_of_some {i : Nat} {b : Binding} (hb : l.cell? i = some b) :
    ∃ c, σ.graph.cell? b = some c ∧ σ.cell? i = some c := by
  have hm : some b ∈ l.cells := List.mem_of_getElem? (Option.join_eq_some_iff.mp hb)
  obtain ⟨c, hc⟩ := h.bound hm
  exact ⟨c, hc, by rw [h.cell, hb, Option.bind_some, hc]⟩

/-- Cells that were found before are found again in a graph that keeps them. -/
theorem cells_of_kept {g' : ScopeGraph}
    (kept : ∀ {b c}, σ.graph.cell? b = some c → g'.cell? b = some c) :
    σ.cells = l.cells.map (·.bind g'.cell?) ∧
      ∀ {b}, some b ∈ l.cells → ∃ c, g'.cell? b = some c := by
  constructor
  · rw [h.cells, List.map_inj_left]
    rintro (_ | b) hm
    · rfl
    · obtain ⟨c, hc⟩ := h.bound hm
      rw [Option.bind_some, Option.bind_some, hc, kept hc]
  · intro b hm
    obtain ⟨c, hc⟩ := h.bound hm
    exact ⟨c, kept hc⟩

theorem write {b : Binding} {c : Cell} {v : Value} {g' : ScopeGraph}
    (hw : Writes b c v σ.graph g') : Describes (l.write b v) { σ with graph := g' } where
  sound := h.sound.write hw
  size := h.size.trans (frames_size_of_outline hw.outline).symm
  chain s := (h.chain s).trans (hw.chain s).symm
  value b' := by
    rw [hw.value, Ledger.write]
    dsimp only
    split
    case isTrue => rfl
    case isFalse => exact h.value b'
  cells := (h.cells_of_kept (hw.shows h.sound).kept).1
  bound := (h.cells_of_kept (hw.shows h.sound).kept).2

private theorem ask (b : Option Binding) (hb : ∀ b' ∈ b, ∃ c, σ.graph.cell? b' = some c) :
    Describes { l with cells := l.cells ++ [b] }
      { σ with cells := σ.cells ++ [b.bind σ.graph.cell?] } where
  sound := h.sound
  size := h.size
  chain := h.chain
  value := h.value
  cells := by rw [h.cells, List.map_append]; rfl
  bound := by
    intro b' hm
    rcases List.mem_append.mp hm with hm | hm
    · exact h.bound hm
    · exact hb b' (List.mem_singleton.mp hm).symm

private theorem enter (parent : Option Nat) (hp : ∀ p ∈ parent, p < σ.graph.frames.size) :
    Describes { l with chains := l.chains ++ [l.chains.length :: parent.elim [] l.chain] }
      { σ with graph := (σ.graph.enter parent).2 } where
  sound := h.sound.enter parent hp
  size := by simp [frames_size_enter, h.size]
  chain s := by
    have hsound := h.sound.enter parent hp
    have hgrows := enter_grows parent σ.graph
    rw [Ledger.chain]
    by_cases hs : s < σ.graph.frames.size
    · rw [hgrows.chain hs, List.getElem?_append_left (by rw [h.size]; exact hs)]
      exact h.chain s
    · by_cases hn : s = σ.graph.frames.size
      · subst hn
        rw [hsound.chain_eq_cons (outline_enter parent σ.graph),
          List.getElem?_append_right (Nat.le_of_eq h.size)]
        have houter : parent.elim [] l.chain = parent.elim [] (σ.graph.enter parent).2.chain := by
          cases parent with
          | none => rfl
          | some p => exact (h.chain p).trans (hgrows.chain (hp p rfl)).symm
        simp [h.size, houter]
      · rw [chain_eq_nil (by rw [frames_size_enter]; omega),
          List.getElem?_eq_none (by rw [List.length_append, h.size, List.length_singleton]; omega)]
        rfl
  value b := by
    have hstored : (σ.graph.enter parent).2.stored? = σ.graph.stored? :=
      funext (stored?_enter parent σ.graph)
    rw [value?, cell?_enter, hstored]
    exact h.value b
  cells := (h.cells_of_kept fun hc => (cell?_enter parent _ _).trans hc).1
  bound := (h.cells_of_kept fun hc => (cell?_enter parent _ _).trans hc).2

private theorem copy {ps : List Nat} {g' : ScopeGraph} (hc : Copies σ.graph g' ps) :
    Describes (l.copy ps) { σ with graph := g' } where
  sound := hc.sound
  size := by simp [Ledger.copy, hc.frames_size, h.size]
  chain s := by
    rw [Ledger.chain, Ledger.copy]
    by_cases hs : s < σ.graph.frames.size
    · rw [hc.grows.chain hs, List.getElem?_append_left (by rw [h.size]; exact hs)]
      exact h.chain s
    · obtain ⟨i, rfl⟩ := Nat.exists_eq_add_of_le (Nat.not_lt.mp hs)
      rw [List.getElem?_append_right (by rw [h.size]; exact Nat.not_lt.mp hs), h.size,
        Nat.add_sub_cancel_left]
      by_cases hi : i < ps.length
      · rw [hc.chain hi]
        simp [hi]
      · rw [chain_eq_nil (by rw [hc.frames_size]; omega)]
        simp [hi]
  value b := by
    rw [Ledger.copy]
    dsimp only
    rw [h.size]
    by_cases hb : b.scope ∈ copies σ.graph.frames.size ps.length
    · obtain ⟨d, hd⟩ := List.mem_iff_getElem?.mp hb
      have hlt : d < ps.length := by
        rw [← length_copies σ.graph.frames.size ps.length]
        exact (List.getElem?_eq_some_iff.mp hd).1
      have hp := List.getElem?_eq_getElem hlt
      rw [lookup_zip_of_getElem? (nodup_copies _ _) hd hp]
      exact (h.value _).trans (hc.value hp hd b.name).symm
    · rw [lookup_zip_eq_none hb, hc.value_of_notMem h.sound hb]
      exact h.value b
  cells := (h.cells_of_kept fun hb => (hc.grows.cell (h.sound.lt_of_cell? hb).1).trans hb).1
  bound := (h.cells_of_kept fun hb => (hc.grows.cell (h.sound.lt_of_cell? hb).1).trans hb).2

private theorem set_step (s : Option Nat) (name : String) (v : Value) :
    (Session.access (.set s name v) σ).1 = (Ledger.access (.set s name v) l).1 ∧
      Describes (Ledger.access (.set s name v) l).2 (Session.access (.set s name v) σ).2 := by
  have hnone : Describes { l with cells := l.cells ++ [none] }
      { σ with cells := σ.cells ++ [none] } := h.ask none (by simp)
  cases s with
  | none => exact ⟨rfl, hnone⟩
  | some s =>
    by_cases hs : s < σ.graph.frames.size
    · obtain ⟨⟨c, g'⟩, hset⟩ :=
        Option.isSome_iff_exists.mp ((isSome_set? σ.graph s name v).mpr hs)
      have hw := set?_writes h.sound hset
      have hcell : g'.cell? ⟨s, name⟩ = some c := (hw.shows h.sound).cell
      have hnext := (h.write hw).ask (some ⟨s, name⟩) fun b' hb' => by
        cases hb'
        exact ⟨c, hcell⟩
      rw [Option.bind_some, hcell] at hnext
      simp only [Session.access, Ledger.access, Option.bind_some, hset, Option.filter_some,
        h.size, hs, decide_true, if_true]
      exact ⟨trivial, hnext⟩
    · have hset : σ.graph.set? s name v = none := by
        rw [← Option.not_isSome_iff_eq_none, isSome_set?]
        exact hs
      simp only [Session.access, Ledger.access, Option.bind_some, hset, Option.filter_some,
        h.size, hs, decide_false]
      exact ⟨rfl, hnone⟩

private theorem lookup_step (s : Option Nat) (name : String) :
    (Session.access (.lookup s name) σ).1 = (Ledger.access (.lookup s name) l).1 ∧
      Describes (Ledger.access (.lookup s name) l).2 (Session.access (.lookup s name) σ).2 := by
  have hbound : ∀ b' ∈ s.bind (l.nearest? · name), ∃ c, σ.graph.cell? b' = some c := by
    intro b' hb'
    obtain ⟨s, rfl, hn⟩ := Option.bind_eq_some_iff.mp hb'
    rw [h.nearest] at hn
    have hsome : (σ.graph.cell? b').isSome = true :=
      List.find?_some (p := fun b => (σ.graph.cell? b).isSome) hn
    exact Option.isSome_iff_exists.mp hsome
  have hfound : s.bind (σ.graph.lookup · name) =
      (s.bind (l.nearest? · name)).bind σ.graph.cell? := by
    cases s with
    | none => rfl
    | some s =>
      rw [Option.bind_some, Option.bind_some, h.nearest]
      exact h.sound.lookup_eq_nearest? s name
  have hnext := h.ask _ hbound
  rw [← hfound] at hnext
  refine ⟨?_, hnext⟩
  simp only [Session.access, Ledger.access, hfound]
  cases hb : s.bind (l.nearest? · name) with
  | none => rfl
  | some b =>
    obtain ⟨c, hc⟩ := hbound b hb
    simp [hc]

private theorem access_step (a : Access) :
    (Session.access a σ).1 = (Ledger.access a l).1 ∧
      Describes (Ledger.access a l).2 (Session.access a σ).2 := by
  cases a with
  | set s name v => exact h.set_step s name v
  | lookup s name => exact h.lookup_step s name
  | load i =>
    refine ⟨?_, h⟩
    simp only [Session.access, Ledger.access]
    cases hb : l.cell? i with
    | none =>
      rw [h.cell, hb]
      rfl
    | some b =>
      obtain ⟨c, hc, hi⟩ := h.cell_of_some hb
      have hload := h.sound.load_eq hc
      rw [← h.value, Option.map_map] at hload
      rw [hi, Option.map_some, Option.bind_some, hload]
      rfl
  | store i v =>
    cases hb : l.cell? i with
    | none =>
      have hi : σ.cell? i = none := by rw [h.cell, hb]; rfl
      simp only [Session.access, Ledger.access, hb, hi]
      exact ⟨trivial, h⟩
    | some b =>
      obtain ⟨c, hc, hi⟩ := h.cell_of_some hb
      simp only [Session.access, Ledger.access, hb, hi]
      exact ⟨trivial, h.write (store_writes h.sound hc v)⟩

/-- Both give the same answer, and the ledger still knows the state of the session. -/
theorem step (a : Action) :
    (Session.act a σ).1 = (Ledger.act a l).1 ∧
      Describes (Ledger.act a l).2 (Session.act a σ).2 := by
  cases a with
  | enter parent =>
    have hnext := h.enter (parent.filter (· < σ.graph.frames.size)) fun p hp => by
      simpa using (Option.filter_eq_some_iff.mp hp).2
    simp only [Session.act, Ledger.act, enter_fst, h.size] at hnext ⊢
    exact ⟨trivial, hnext⟩
  | snapshot s order =>
    cases s with
    | none =>
      have hcopy : l.copy [] = l := by simp [Ledger.copy, copies]
      simp only [Session.act, Ledger.act, Option.elim_none, hcopy]
      exact ⟨rfl, h⟩
    | some s =>
      have hnext := h.copy (snapshotAlong_copies h.sound order s)
      simp only [Session.act, Ledger.act, Option.elim_some, snapshotAlong_fst, h.size, h.chain]
      exact ⟨trivial, hnext⟩
  | access a => exact h.access_step a

end Describes

private theorem run_describes (actions : List Action) :
    (actions.mapM Session.act {}).1 = (actions.mapM Ledger.act {}).1 ∧
      Describes (actions.mapM Ledger.act {}).2 (actions.mapM Session.act {}).2 :=
  mapM_simulates (fun σ l => Describes l σ) Session.act Ledger.act (fun a _ _ h => h.step a)
    actions {} {} describes_empty

end Ledger

/-- Bindings never share a cell.  In every session the names of all scopes have cells that are
there, each its own, and no value in them is marked as assignable; so what is written to a binding
is seen through this binding and no other, whether by a name or by a cell from before, and all
answers are those of the account, where a name has the value that was last written to it in the
nearest scope that binds it. -/
theorem session_bindings_apart (actions : List Action) :
    let out := actions.mapM Session.act {}
    let g := out.2.graph
    (∀ b c, g.cell? b = some c → ∃ v, g.stored? c = some v) ∧
    (∀ b b' c, g.cell? b = some c → g.cell? b' = some c → b = b') ∧
    (∀ c v, g.stored? c = some v → v.lvalue = false) ∧
    (∀ s name v c g', g.set? s name v = some (c, g') → Shows ⟨s, name⟩ c v g g') ∧
    (∀ b c v, g.cell? b = some c → Shows b c v g (g.store c v)) ∧
    (∀ i c, out.2.cell? i = some c → ∃ b, g.cell? b = some c) ∧
    (∀ s name, g.get? s name =
      (g.nearest? s name).bind fun b => (g.value? b).map (·.asLvalue)) ∧
    out.1 = (actions.mapM Ledger.act {}).1 := by
  intro out g
  obtain ⟨hanswers, h⟩ := Ledger.run_describes actions
  refine ⟨fun _ _ => h.sound.stored, fun _ _ _ => h.sound.injective, fun _ _ => h.sound.unmarked,
    fun s name v c g' hset => ?_, fun b c v hc => ?_, fun i c hi => ?_, h.sound.get?_eq, hanswers⟩
  · exact (set?_writes h.sound hset).shows h.sound
  · exact (store_writes h.sound hc v).shows h.sound
  · rw [h.cell] at hi
    obtain ⟨b, _, hb⟩ := Option.bind_eq_some_iff.mp hi
    exact ⟨b, hb⟩

/-- `x` is bound in scope 0 and again in scope 1, which has scope 2 beside it.  Both levels are
copied to the scopes 3 and 4, and then `x` is written as seen from scope 2. -/
def shadowing : List Action :=
  [.enter none, .access (.set (some 0) "x" (.signed 1)), .enter (some 0), .enter (some 0),
    .access (.set (some 1) "x" (.signed 2)), .snapshot (some 1) .asBound,
    .access (.lookup (some 2) "x"), .access (.store 2 (.signed 7))]

theorem session_bindings_apart_shadowing :
    let σ := (shadowing.mapM Session.act {}).2
    let g := σ.graph
    (g.cell? ⟨0, "x"⟩ = some ⟨0, 0⟩ ∧ g.cell? ⟨1, "x"⟩ = some ⟨0, 1⟩ ∧
      g.cell? ⟨3, "x"⟩ = some ⟨1, 0⟩ ∧ σ.cell? 2 = some ⟨0, 0⟩) ∧
    (∃ v, g.stored? ⟨0, 1⟩ = some v ∧ v.lvalue = false) ∧
    (∀ b, g.cell? b = some ⟨0, 0⟩ → b = ⟨0, "x"⟩) ∧
    (∀ v, Shows ⟨0, "x"⟩ ⟨0, 0⟩ v g (g.store ⟨0, 0⟩ v)) ∧
    ∀ v, ∃ c g', g.set? 2 "x" v = some (c, g') ∧ Shows ⟨2, "x"⟩ c v g g' := by
  intro σ g
  have houter : g.cell? ⟨0, "x"⟩ = some ⟨0, 0⟩ := by decide +kernel
  have hinner : g.cell? ⟨1, "x"⟩ = some ⟨0, 1⟩ := by decide +kernel
  have hsize : 2 < g.frames.size := by decide +kernel
  obtain ⟨hstored, hown, hunmarked, hset, hstore, _⟩ := session_bindings_apart shadowing
  refine ⟨⟨houter, hinner, by decide +kernel, by decide +kernel⟩, ?_,
    fun b hb => hown _ _ _ hb houter, fun v => hstore _ _ v houter, fun v => ?_⟩
  · obtain ⟨v, hv⟩ := hstored _ _ hinner
    exact ⟨v, hv, hunmarked _ _ hv⟩
  · obtain ⟨⟨c, g'⟩, hc⟩ := Option.isSome_iff_exists.mp ((isSome_set? g 2 "x" v).mpr hsize)
    exact ⟨c, g', hc, hset _ _ _ _ _ hc⟩

end HdlExpr.ScopeGraph
