import HdlExpr.Proofs.Tree.Linked
import HdlExpr.Tree.Build

/-!
# Outlines

What a tree says below a node, without the numbers of the nodes.  Adding a node on top of some
roots gives it the outlines of these roots, and leaves all other outlines as they are, so that
expressions can be put together from parts without looking at the rest of the tree.
-/

namespace HdlExpr

/-- The tag and the text of a node, and the same of everything below it. -/
inductive Outline where
  | node (tag : Tag) (symbol : String) (children : List Outline)

def Outline.tag : Outline → Tag
  | .node tag .. => tag

def Outline.leaf (tag : Tag) (symbol : String) : Outline := .node tag symbol []

namespace Tree

def outline (t : Tree) (n : NodeId) : Outline :=
  .node (t.tag n) (t.symbol n)
    ((t.children n).map fun c => if _h : c < n then outline t c else .leaf .invalid "")
termination_by n

variable {t t' : Tree}

theorem Linked.outline_eq (h : t.Linked) (n : NodeId) :
    t.outline n = .node (t.tag n) (t.symbol n) ((t.children n).map t.outline) := by
  rw [outline]
  congr 1
  refine List.map_congr_left fun c hc => ?_
  rw [dif_pos (h.lt hc)]

/-! ## Adding a node -/

section Adds

variable {tag : Tag} {symbol : String} {linked : List NodeId}

theorem Adds.tag_old (h : Adds t t' tag symbol linked) {m : NodeId} (hm : m ≠ t.size + 1) :
    t'.tag m = t.tag m := by
  simp only [Tree.tag, h.old hm]
  split <;> simp [Function.comp_def]

theorem Adds.symbol_old (h : Adds t t' tag symbol linked) {m : NodeId} (hm : m ≠ t.size + 1) :
    t'.symbol m = t.symbol m := by
  simp only [Tree.symbol, h.old hm]
  split <;> simp [Function.comp_def]

theorem Linked.ne_size_succ (hl : t.Linked) {m c : NodeId} (hc : c ∈ t.children m) :
    c ≠ t.size + 1 := by
  rintro rfl
  have hn := ((hl.mem_children (Nat.ne_zero_of_lt (hl.lt hc))).mp hc).1
  rw [isNode_size_succ] at hn
  cases hn

theorem Adds.outline_old (h : Adds t t' tag symbol linked) (hl : t.Linked) {m : NodeId}
    (hm : m ≠ t.size + 1) : t'.outline m = t.outline m := by
  induction m using Nat.strongRecOn with
  | ind m ih =>
    rw [(hl.add h).outline_eq, hl.outline_eq, h.tag_old hm, h.symbol_old hm, h.children hl,
      if_neg hm]
    congr 1
    refine List.map_congr_left fun c hc => ?_
    exact ih c (hl.lt hc) (hl.ne_size_succ hc)

theorem Adds.outline_new (h : Adds t t' tag symbol linked) (hl : t.Linked) :
    t'.outline (t.size + 1) = .node tag symbol (linked.map t.outline) := by
  have htag : t'.tag (t.size + 1) = tag := by simp [Tree.tag, h.new]
  have hsymbol : t'.symbol (t.size + 1) = symbol := by simp [Tree.symbol, h.new]
  rw [(hl.add h).outline_eq, htag, hsymbol, h.children hl, if_pos rfl]
  congr 1
  refine List.map_congr_left fun c hc => ?_
  exact h.outline_old hl fun he => h.not_mem (he ▸ hc)

end Adds

/-! ## Roots at hand -/

/-- The tree has these roots, which are different nodes, with these outlines. -/
structure Holds (t : Tree) (roots : List (NodeId × Outline)) : Prop where
  linked : t.Linked
  nodup : (roots.map Prod.fst).Nodup
  isNode {p : NodeId × Outline} (h : p ∈ roots) : t.isNode p.1 = true
  parent {p : NodeId × Outline} (h : p ∈ roots) : t.parent p.1 = 0
  outline {p : NodeId × Outline} (h : p ∈ roots) : t.outline p.1 = p.2

namespace Holds

variable {roots roots' rest : List (NodeId × Outline)}

theorem nil (h : t.Linked) : t.Holds [] :=
  ⟨h, List.nodup_nil, nofun, nofun, nofun⟩

theorem perm (h : t.Holds roots) (hp : roots.Perm roots') : t.Holds roots' where
  linked := h.linked
  nodup := (hp.map Prod.fst).nodup_iff.mp h.nodup
  isNode hm := h.isNode (hp.mem_iff.mpr hm)
  parent hm := h.parent (hp.mem_iff.mpr hm)
  outline hm := h.outline (hp.mem_iff.mpr hm)

theorem swap {a b : NodeId × Outline} (h : t.Holds (a :: b :: rest)) : t.Holds (b :: a :: rest) :=
  h.perm (.swap b a rest)

/-- A node that takes the first roots has their outlines below its own tag and text; the other
roots stay. -/
theorem add {tag : Tag} {symbol : String} (taken : List (NodeId × Outline))
    (h : t.Holds (taken ++ rest)) (ha : Adds t t' tag symbol (taken.map Prod.fst)) :
    t'.Holds ((t.size + 1, .node tag symbol (taken.map Prod.snd)) :: rest) := by
  have hmem {p : NodeId × Outline} (hp : p ∈ rest) : p ∈ taken ++ rest :=
    List.mem_append_right taken hp
  have hne {p : NodeId × Outline} (hp : p ∈ rest) : p.1 ≠ t.size + 1 := by
    intro he
    have hn := h.isNode (hmem hp)
    rw [he, isNode_size_succ] at hn
    cases hn
  have hnodup := h.nodup
  rw [List.map_append, List.nodup_append] at hnodup
  obtain ⟨_, hd, hdisjoint⟩ := hnodup
  refine ⟨h.linked.add ha, ?_, fun {p} hp => ?_, fun {p} hp => ?_, fun {p} hp => ?_⟩
  · refine List.nodup_cons.mpr ⟨fun hm => ?_, hd⟩
    obtain ⟨p, hp, he⟩ := List.mem_map.mp hm
    exact hne hp he
  all_goals rcases List.mem_cons.mp hp with rfl | hp
  · exact isNode_of_node? ha.new
  · rw [ha.isNode (hne hp)]
    exact h.isNode (hmem hp)
  · rw [ha.parent, if_pos rfl]
  · -- A root that stays is not among those that were taken.
    have hnot : p.1 ∉ taken.map Prod.fst := fun hm =>
      hdisjoint p.1 hm p.1 (List.mem_map_of_mem hp) rfl
    rw [ha.parent, if_neg (hne hp), if_neg hnot]
    exact h.parent (hmem hp)
  · rw [ha.outline_new h.linked, List.map_map]
    congr 1
    exact List.map_congr_left fun q hq => h.outline (List.mem_append_left rest hq)
  · rw [ha.outline_old h.linked (hne hp)]
    exact h.outline (hmem hp)

/-- Different roots can be linked under a new node. -/
theorem fault_eq_none {taken : List (NodeId × Outline)} (h : t.Holds (taken ++ rest)) (tag : Tag) :
    (t.node tag (taken.map Prod.fst)).fault = none := by
  have hmem {c : NodeId} (hc : c ∈ taken.map Prod.fst) :
      t.isNode c = true ∧ t.parent c = 0 := by
    obtain ⟨p, hp, rfl⟩ := List.mem_map.mp hc
    exact ⟨h.isNode (List.mem_append_left rest hp), h.parent (List.mem_append_left rest hp)⟩
  have hd := h.nodup
  rw [List.map_append, List.nodup_append] at hd
  refine (node_fault_eq_none_iff h.linked tag _).mpr ⟨hd.1.filter _, fun c hc => ⟨?_, ?_⟩⟩
  · rintro rfl
    have hn := (hmem hc).1
    rw [isNode_size_succ] at hn
    cases hn
  · exact fun _ => (hmem hc).2

end Holds

/-! ## Builders -/

/-- From `t`, the builder gives a root with the outline `o` beside the given roots. -/
def Gives (x : Build NodeId) (t : Tree) (o : Outline) (roots : List (NodeId × Outline)) : Prop :=
  (x t).2.Holds (((x t).1, o) :: roots)

/-- From `t`, the builder gives roots with the outlines `os` beside the given roots. -/
def GivesAll (x : Build (List NodeId)) (t : Tree) (os : List Outline)
    (roots : List (NodeId × Outline)) : Prop :=
  ∃ taken, (x t).1 = taken.map Prod.fst ∧ taken.map Prod.snd = os ∧ (x t).2.Holds (taken ++ roots)

variable {roots roots' : List (NodeId × Outline)}

theorem Gives.bind {x : Build NodeId} {f : NodeId → Build NodeId} {o o' : Outline}
    (hx : Gives x t o roots)
    (hf : ∀ (n : NodeId) (t' : Tree), t'.Holds ((n, o) :: roots) → Gives (f n) t' o' roots') :
    Gives (x >>= f) t o' roots' :=
  hf _ _ hx

theorem GivesAll.bind {x : Build (List NodeId)} {f : List NodeId → Build NodeId}
    {os : List Outline} {o : Outline} (hx : GivesAll x t os roots)
    (hf : ∀ (taken : List (NodeId × Outline)) (t' : Tree), taken.map Prod.snd = os →
      t'.Holds (taken ++ roots) → Gives (f (taken.map Prod.fst)) t' o roots') :
    Gives (x >>= f) t o roots' := by
  obtain ⟨taken, hfst, hsnd, hh⟩ := hx
  have hg := hf taken _ hsnd hh
  rw [← hfst] at hg
  exact hg

theorem GivesAll.nil (h : t.Holds roots) : GivesAll (pure []) t [] roots :=
  ⟨[], rfl, rfl, h⟩

/-- One root after the other. -/
theorem GivesAll.cons {x : Build NodeId} {xs : Build (List NodeId)} {o : Outline}
    {os : List Outline} (hx : Gives x t o roots)
    (hxs : ∀ (n : NodeId) (t' : Tree), t'.Holds ((n, o) :: roots) →
      GivesAll xs t' os ((n, o) :: roots)) :
    GivesAll (do let n ← x; let ns ← xs; pure (n :: ns)) t (o :: os) roots := by
  obtain ⟨taken, hfst, hsnd, hh⟩ := hxs _ _ hx
  refine ⟨((x t).1, o) :: taken, ?_, ?_, hh.perm List.perm_middle⟩
  · exact congrArg ((x t).1 :: ·) hfst
  · rw [List.map_cons, hsnd]

namespace Holds

theorem leaf (h : t.Holds roots) (tag : Tag) (symbol : String) :
    Gives (Build.leaf tag symbol) t (.leaf tag symbol) roots :=
  h.add [] (leaf_adds t tag symbol)

theorem node (taken : List (NodeId × Outline)) (h : t.Holds (taken ++ roots)) (tag : Tag) :
    Gives (Build.node tag (taken.map Prod.fst)) t (.node tag "" (taken.map Prod.snd)) roots := by
  obtain ⟨linked, ha, hf⟩ := node_adds h.linked tag (taken.map Prod.fst)
  obtain ⟨rfl, _⟩ := hf (h.fault_eq_none tag)
  have hall : (taken.map Prod.fst).filter t.isNode = taken.map Prod.fst := by
    refine List.filter_eq_self.mpr fun c hc => ?_
    obtain ⟨p, hp, rfl⟩ := List.mem_map.mp hc
    exact h.isNode (List.mem_append_left roots hp)
  rw [hall] at ha
  exact h.add taken ha

end Holds

end Tree

end HdlExpr
