import Mathlib.Data.List.Nodup
import Mathlib.Data.List.Perm.Subperm
import HdlExpr.Tree.Basic

/-!
# Trees that were built

A tree that was built from the leaves up is linked: the children of a node form a chain that ends,
children and parents say the same, no child is listed twice, and children have smaller numbers than
their parents.  So the nodes below a node can be listed, and none of them is listed twice.
-/

namespace HdlExpr.Tree

/-! ## Looking up nodes -/

theorem node?_update (t : Tree) (n : NodeId) (f : Node → Node) (m : NodeId) :
    (t.update n f).node? m = if m = n then (t.node? m).map f else t.node? m := by
  cases n with
  | zero => cases m <;> simp [update, node?]
  | succ i =>
    cases m with
    | zero => simp [node?]
    | succ j => simp [update, node?, Array.getElem?_modify, eq_comm]

theorem size_update (t : Tree) (n : NodeId) (f : Node → Node) : (t.update n f).size = t.size := by
  cases n <;> simp [update, size]

private theorem node?_leaf (t : Tree) (tag : Tag) (symbol : String) (m : NodeId) :
    (t.leaf tag symbol).2.node? m =
      if m = t.size + 1 then some { tag, symbol } else t.node? m := by
  cases m with
  | zero => simp [node?]
  | succ i => simp [leaf, node?, size, Array.getElem?_push]

@[simp] private theorem size_leaf (t : Tree) (tag : Tag) (symbol : String) :
    (t.leaf tag symbol).2.size = t.size + 1 := by
  simp [leaf, size]

theorem isNode_iff (t : Tree) (n : Nat) : t.isNode n = true ↔ n ≠ 0 ∧ n ≤ t.size := by
  cases n with
  | zero => simp [isNode, node?]
  | succ i =>
    have hlt : t.isNode (i + 1) = true ↔ i < t.size := by simp [isNode, node?, size]
    rw [hlt]
    omega

theorem isNode_of_node? {t : Tree} {n : NodeId} {x : Node} (h : t.node? n = some x) :
    t.isNode n = true := by
  simp [isNode, h]

private theorem node?_eq_none {t : Tree} {n : NodeId} (h : t.isNode n = false) :
    t.node? n = none := by
  simpa [isNode] using h

theorem isNode_size_succ (t : Tree) : t.isNode (t.size + 1) = false := by
  rw [← Bool.not_eq_true, isNode_iff]
  omega

theorem mem_ids (t : Tree) (n : Nat) : n ∈ t.ids ↔ t.isNode n = true := by
  rw [isNode_iff, ids, List.mem_map]
  constructor
  · rintro ⟨i, hi, rfl⟩
    exact ⟨Nat.succ_ne_zero i, List.mem_range.mp hi⟩
  · rintro ⟨h0, hn⟩
    exact ⟨n - 1, List.mem_range.mpr (by omega), by omega⟩

theorem mem_roots (t : Tree) (n : NodeId) :
    n ∈ t.roots ↔ t.isNode n = true ∧ t.parent n = 0 := by
  simp [roots, mem_ids]

private theorem length_le_size {t : Tree} {ns : List NodeId} (hd : ns.Nodup)
    (hn : ∀ n ∈ ns, t.isNode n = true) : ns.length ≤ t.size := by
  have hsub : ns.Subperm t.ids :=
    List.subperm_of_subset hd fun n h => (mem_ids t n).mpr (hn n h)
  simpa [ids] using hsub.length_le

/-! ## Chains of siblings -/

/-- The nodes met from `n` on by going from sibling to sibling until there is none. -/
inductive Chain (t : Tree) : NodeId → List NodeId → Prop
  | nil : Chain t 0 []
  | cons {n : NodeId} {ns : List NodeId} (hn : n ≠ 0) (rest : Chain t (t.sibling n) ns) :
      Chain t n (n :: ns)

theorem Chain.congr {t t' : Tree} {n : NodeId} {ns : List NodeId} (h : Chain t n ns)
    (hs : ∀ c ∈ ns, t'.sibling c = t.sibling c) : Chain t' n ns := by
  induction h with
  | nil => exact .nil
  | @cons n ns hn rest ih =>
    have hrest := ih fun c hc => hs c (List.mem_cons_of_mem n hc)
    rw [← hs n List.mem_cons_self] at hrest
    exact .cons hn hrest

theorem Chain.siblings_eq {t : Tree} {n : NodeId} {ns : List NodeId} (h : Chain t n ns)
    {bound : Nat} (hb : ns.length ≤ bound) : t.siblings bound n = ns := by
  induction h generalizing bound with
  | nil => cases bound <;> simp [siblings]
  | @cons n ns hn rest ih =>
    cases bound with
    | zero => simp at hb
    | succ bound =>
      rw [siblings, if_neg hn, ih (Nat.le_of_succ_le_succ hb)]

private theorem length_siblings_le (t : Tree) (bound : Nat) (n : NodeId) :
    (t.siblings bound n).length ≤ bound := by
  induction bound generalizing n with
  | zero => exact Nat.le_refl 0
  | succ bound ih =>
    rw [siblings]
    split
    · exact Nat.zero_le _
    · exact Nat.succ_le_succ (ih _)

theorem Chain.head_eq {t : Tree} {n : NodeId} {ns : List NodeId} (h : Chain t n ns) :
    n = ns.headD 0 := by
  cases h <;> rfl

/-- The element after the first occurrence of `n`, zero after the last one. -/
def following (n : NodeId) : List NodeId → NodeId
  | [] => 0
  | c :: rest => if c = n then rest.headD 0 else following n rest

private theorem last_mem {ns : List NodeId} (h : ns ≠ []) : ns.getLastD 0 ∈ ns := by
  cases ns with
  | nil => exact absurd rfl h
  | cons a ns =>
    rw [List.getLastD_cons]
    exact List.getLastD_mem_cons

private theorem following_concat_of_mem {n c : NodeId} {ns : List NodeId} (hd : ns.Nodup)
    (hn : n ∈ ns) : following n (ns ++ [c]) = if n = ns.getLastD 0 then c else following n ns := by
  induction ns with
  | nil => simp at hn
  | cons a ns ih =>
    obtain ⟨ha, hd⟩ := List.nodup_cons.mp hd
    cases ns with
    | nil => simp_all [following]
    | cons b ns =>
      have hlast : (a :: b :: ns).getLastD 0 = (b :: ns).getLastD 0 := by simp
      rw [hlast]
      by_cases han : a = n
      · subst han
        have hne : a ≠ (b :: ns).getLastD 0 := 
          fun he => ha (he ▸ last_mem (List.cons_ne_nil b ns))
        rw [if_neg hne]
        simp [following]
      · have hn' : n ∈ b :: ns := (List.mem_cons.mp hn).resolve_left fun he => han he.symm
        simpa [following, han] using ih hd hn'

private theorem following_concat_self {c : NodeId} {ns : List NodeId} (hc : c ∉ ns) :
    following c (ns ++ [c]) = 0 := by
  induction ns with
  | nil => simp [following]
  | cons a ns ih =>
    rw [List.mem_cons, not_or] at hc
    simpa [following, Ne.symm hc.1] using ih hc.2

/-- Nodes of which each has the next one as its sibling are a chain. -/
theorem chain_of_following {t : Tree} {ns : List NodeId} (hd : ns.Nodup) (h0 : 0 ∉ ns)
    (hs : ∀ c ∈ ns, t.sibling c = following c ns) : Chain t (ns.headD 0) ns := by
  induction ns with
  | nil => exact .nil
  | cons a ns ih =>
    obtain ⟨ha, hd⟩ := List.nodup_cons.mp hd
    rw [List.mem_cons, not_or] at h0
    have hrest : Chain t (ns.headD 0) ns := by
      refine ih hd h0.2 fun c hc => ?_
      have hne : a ≠ c := fun he => ha (he ▸ hc)
      rw [hs c (List.mem_cons_of_mem a hc), following, if_neg hne]
    have hnext : t.sibling a = ns.headD 0 := by simpa [following] using hs a List.mem_cons_self
    rw [← hnext] at hrest
    exact .cons (Ne.symm h0.1) hrest

/-! ## Linked trees -/

/-- Children form a chain, children and parents say the same, children are listed once, and they
are numbered below their parents.  A node without a parent has no sibling. -/
structure Linked (t : Tree) : Prop where
  lt {n c : NodeId} (h : c ∈ t.children n) : c < n
  mem_children {n c : NodeId} (hn : n ≠ 0) :
    c ∈ t.children n ↔ t.isNode c = true ∧ t.parent c = n
  nodup (n : NodeId) : (t.children n).Nodup
  chain (n : NodeId) : Chain t (t.child n) (t.children n)
  root {n : NodeId} (h : t.parent n = 0) : t.sibling n = 0

theorem Linked.child_eq {t : Tree} (h : t.Linked) (n : NodeId) :
    t.child n = (t.children n).headD 0 :=
  (h.chain n).head_eq

theorem children_of_not_isNode {t : Tree} {n : NodeId} (h : t.isNode n = false) :
    t.children n = [] := by
  have hc : t.child n = 0 := by simp [child, node?_eq_none h]
  rw [children, hc]
  exact Chain.nil.siblings_eq (Nat.zero_le _)

theorem isNode_of_mem_children {t : Tree} {n c : NodeId} (h : c ∈ t.children n) :
    t.isNode n = true := by
  by_contra hnot
  rw [children_of_not_isNode (Bool.not_eq_true _ ▸ hnot)] at h
  cases h

theorem linked_empty (file : String) : Linked ⟨file, #[]⟩ := by
  have hn : ∀ m, (⟨file, #[]⟩ : Tree).isNode m = false := by
    intro m
    rw [← Bool.not_eq_true, isNode_iff]
    simp [size]
  have hc : ∀ m, (⟨file, #[]⟩ : Tree).children m = [] := fun m => children_of_not_isNode (hn m)
  constructor
  case chain =>
    intro m
    have hchild : (⟨file, #[]⟩ : Tree).child m = 0 := by simp [child, node?_eq_none (hn m)]
    rw [hc, hchild]
    exact .nil
  case root => simp [sibling, node?_eq_none (hn _)]
  all_goals simp [hc, hn]

theorem Linked.congr {t t' : Tree} (h : t.Linked) (hsize : t'.size = t.size)
    (hc : ∀ m, (t'.node? m).map (fun x => (x.child, x.sibling, x.parent)) =
      (t.node? m).map fun x => (x.child, x.sibling, x.parent)) : t'.Linked := by
  have hn : ∀ m, t'.isNode m = t.isNode m := by
    intro m
    simpa [isNode] using congrArg Option.isSome (hc m)
  have hchild : t'.child = t.child := by
    funext m
    simpa [child, Function.comp_def] using congrArg (fun o => (o.map (·.1)).getD 0) (hc m)
  have hs : t'.sibling = t.sibling := by
    funext m
    simpa [sibling, Function.comp_def] using congrArg (fun o => (o.map (·.2.1)).getD 0) (hc m)
  have hp : t'.parent = t.parent := by
    funext m
    simpa [parent, Function.comp_def] using congrArg (fun o => (o.map (·.2.2)).getD 0) (hc m)
  have hch : t'.children = t.children := by
    funext m
    rw [children, hchild, hsize, children]
    generalize t.size = bound, t.child m = n
    induction bound generalizing n with
    | zero => rfl
    | succ bound ih => rw [siblings, siblings, hs, ih]
  constructor
  · intro n c hm
    exact h.lt (hch ▸ hm)
  · intro n c h0
    rw [hch, hn, hp, h.mem_children h0]
  · intro n
    rw [hch]
    exact h.nodup n
  · intro n
    rw [hch, hchild]
    exact (h.chain n).congr fun c _ => congrFun hs c
  · intro n h0
    rw [hs]
    exact h.root (hp ▸ h0)

theorem Linked.update {t : Tree} (h : t.Linked) (n : NodeId) (f : Node → Node)
    (hf : ∀ x, ((f x).child, (f x).sibling, (f x).parent) = (x.child, x.sibling, x.parent)) :
    (t.update n f).Linked := by
  refine h.congr (size_update t n f) fun m => ?_
  rw [node?_update]
  split
  · simp only [Option.map_map, Function.comp_def, hf]
  · rfl

/-! ## Linking -/

/-- What linking does: some nodes that had no parent get the parent `id`, each of them once, and
are chained in order, the first of them as the first child of `id`. -/
structure Links (id : NodeId) (t t' : Tree) (linked : List NodeId) : Prop where
  size : t'.size = t.size
  nodup : linked.Nodup
  fresh {c : NodeId} (h : c ∈ linked) : c ≠ id ∧ ∃ x, t.node? c = some x ∧ x.parent = 0
  self : t'.node? id = (t.node? id).map fun x => { x with child := linked.headD x.child }
  old {m : NodeId} (h : m ≠ id) : t'.node? m =
    if m ∈ linked then
      (t.node? m).map fun x => { x with parent := id, sibling := following m linked }
    else t.node? m

namespace Links

variable {id : NodeId} {t t' : Tree} {linked : List NodeId}

private theorem nil (id : NodeId) (t : Tree) : Links id t t [] where
  size := rfl
  nodup := List.nodup_nil
  fresh h := by simp at h
  self := by simp
  old _ := by simp

private theorem isNode_eq (h : Links id t t' linked) (m : NodeId) : t'.isNode m = t.isNode m := by
  rw [Bool.eq_iff_iff, isNode_iff, isNode_iff, h.size]

private theorem zero_not_mem (h : Links id t t' linked) : 0 ∉ linked := by
  intro hm
  obtain ⟨_, x, hx, _⟩ := h.fresh hm
  cases hx

/-- A node that still has no parent is not linked, and is as it was. -/
theorem untouched (h : Links id t t' linked) (hid : id ≠ 0) {c : NodeId} {x : Node}
    (hx : t'.node? c = some x) (hp : x.parent = 0) (hc : c ≠ id) :
    c ∉ linked ∧ t.node? c = some x := by
  have hold := h.old hc
  have hnot : c ∉ linked := by
    intro hm
    obtain ⟨_, y, hy, _⟩ := h.fresh hm
    rw [hx, if_pos hm, hy, Option.map_some, Option.some.injEq] at hold
    exact hid (by rw [← hp, hold])
  rw [if_neg hnot] at hold
  exact ⟨hnot, hold ▸ hx⟩

private theorem last_eq_zero (h : Links id t t' linked) : linked.getLastD 0 = 0 ↔ linked = [] := by
  constructor
  · intro h0
    by_contra hne
    exact h.zero_not_mem (h0 ▸ last_mem hne)
  · rintro rfl
    rfl

private theorem node?_attach_self (h : Links id t t' linked) {c : NodeId} (hc : c ≠ id) :
    (t'.attach id (linked.getLastD 0) c).node? id =
      (t.node? id).map fun x => { x with child := (linked ++ [c]).headD x.child } := by
  have hself := h.self
  by_cases hl : linked = []
  · subst hl
    simp [Tree.attach, node?_update, Ne.symm hc, hself]
  · have hne : id ≠ linked.getLastD 0 := Ne.symm (h.fresh (last_mem hl)).1
    have h0 : linked.getLastD 0 ≠ 0 := mt h.last_eq_zero.mp hl
    simp only [Tree.attach, if_neg h0, node?_update, if_neg hne, if_neg (Ne.symm hc), hself]
    cases linked with
    | nil => exact absurd rfl hl
    | cons a linked => rfl

private theorem node?_attach_of_ne (h : Links id t t' linked) {c m : NodeId} (hm : m ≠ id) :
    (t'.attach id (linked.getLastD 0) c).node? m =
      let y := if m = c then (t'.node? m).map fun x => { x with parent := id } else t'.node? m
      if m ∈ linked ∧ m = linked.getLastD 0 then y.map fun x => { x with sibling := c } else y := by
  by_cases hl : linked = []
  · subst hl
    simp [Tree.attach, node?_update, hm]
  · have h0 : linked.getLastD 0 ≠ 0 := mt h.last_eq_zero.mp hl
    have hiff : (m ∈ linked ∧ m = linked.getLastD 0) ↔ m = linked.getLastD 0 :=
      ⟨And.right, fun he => ⟨he ▸ last_mem hl, he⟩⟩
    simp only [Tree.attach, if_neg h0, node?_update, hiff]

/-- One more node is linked behind the last one. -/
theorem attach (h : Links id t t' linked) (hid : id ≠ 0) {c : NodeId} {x : Node}
    (hx : t'.node? c = some x) (hp : x.parent = 0) (hs : x.sibling = 0) (hc : c ≠ id) :
    Links id t (t'.attach id (linked.getLastD 0) c) (linked ++ [c]) := by
  obtain ⟨hnot, htx⟩ := h.untouched hid hx hp hc
  refine ⟨?_, ?_, fun {d} hd => ?_, h.node?_attach_self hc, fun {m} hm => ?_⟩
  · unfold Tree.attach
    dsimp only
    split <;> rw [size_update, size_update, h.size]
  · rw [List.nodup_append_comm]
    exact List.nodup_cons.mpr ⟨hnot, h.nodup⟩
  · rcases List.mem_append.mp hd with hd | hd
    · exact h.fresh hd
    · obtain rfl := List.mem_singleton.mp hd
      exact ⟨hc, x, htx, hp⟩
  · rw [h.node?_attach_of_ne hm]
    dsimp only
    by_cases hmc : m = c
    · -- The new node gets its parent, and as the last one it keeps having no sibling.
      subst hmc
      simp [hnot, hx, htx, following_concat_self hnot, ← hs]
    · by_cases hml : m ∈ linked
      · -- Of the others only the last one changes.
        rw [h.old hm, following_concat_of_mem h.nodup hml]
        by_cases hlast : m = linked.getLastD 0
        · rw [if_pos ⟨hml, hlast⟩, if_pos hlast, if_neg hmc, if_pos hml,
            if_pos (List.mem_append_left _ hml), Option.map_map]
          rfl
        · rw [if_neg fun hh => hlast hh.2, if_neg hlast, if_neg hmc, if_pos hml,
            if_pos (List.mem_append_left _ hml)]
      · rw [h.old hm]
        simp [hmc, hml]

end Links

/-- Linking hangs candidates under `id`, all that exist unless it stops at a fault. -/
theorem link_links {id : NodeId} (hid : id ≠ 0) {t : Tree}
    (hroot : ∀ m, t.parent m = 0 → t.sibling m = 0) {s : Tree} {linked : List NodeId}
    (h : Links id t s linked) (cs : List NodeId) :
    ∃ more, Links id t (link id s (linked.getLastD 0) cs).1 (linked ++ more) ∧
      ((link id s (linked.getLastD 0) cs).2 = none → more = cs.filter t.isNode) := by
  induction cs generalizing s linked with
  | nil => exact ⟨[], by simpa [link] using h, fun _ => rfl⟩
  | cons c rest ih =>
    cases hx : s.node? c with
    | none =>
      have hc : t.isNode c = false := by rw [← h.isNode_eq c, isNode, hx, Option.isSome_none]
      obtain ⟨more, hm, hf⟩ := ih h
      simp only [link, hx]
      exact ⟨more, hm, fun hn => by simp [hf hn, hc]⟩
    | some x =>
      by_cases hf : x.parent ≠ 0 ∨ c = id
      · simp only [link, hx, if_pos hf]
        exact ⟨[], by simpa using h, fun hn => by simp at hn⟩
      · simp only [ne_eq, not_or, not_not] at hf
        obtain ⟨hp, hc⟩ := hf
        obtain ⟨_, htx⟩ := h.untouched hid hx hp hc
        have hs : x.sibling = 0 := by
          have := hroot c (by simp [parent, htx, hp])
          simpa [sibling, htx] using this
        have hlast : (linked ++ [c]).getLastD 0 = c := by simp
        obtain ⟨more, hm, hmore⟩ := ih (h.attach hid hx hp hs hc)
        rw [hlast] at hm hmore
        have hcond : ¬(x.parent ≠ 0 ∨ c = id) := by simp [hp, hc]
        simp only [link, hx, if_neg hcond]
        refine ⟨c :: more, by simpa using hm, fun hn => ?_⟩
        rw [hmore hn, List.filter_cons_of_pos (isNode_of_node? htx)]

/-- Candidates that are different roots are linked without a fault. -/
theorem link_fault_eq_none {id : NodeId} (hid : id ≠ 0) {t : Tree}
    (hroot : ∀ m, t.parent m = 0 → t.sibling m = 0) {s : Tree} {linked : List NodeId}
    (h : Links id t s linked) {cs : List NodeId} (hd : (linked ++ cs.filter t.isNode).Nodup)
    (hc : ∀ c ∈ cs, t.isNode c = true → t.parent c = 0 ∧ c ≠ id) :
    (link id s (linked.getLastD 0) cs).2 = none := by
  induction cs generalizing s linked with
  | nil => rfl
  | cons c rest ih =>
    have hrest : ∀ d ∈ rest, t.isNode d = true → t.parent d = 0 ∧ d ≠ id :=
      fun d hm => hc d (List.mem_cons_of_mem c hm)
    cases hx : s.node? c with
    | none =>
      have hn : t.isNode c = false := by rw [← h.isNode_eq c, isNode, hx, Option.isSome_none]
      simp only [link, hx]
      exact ih h (by simpa [hn] using hd) hrest
    | some x =>
      have hn : t.isNode c = true := by rw [← h.isNode_eq c, isNode, hx, Option.isSome_some]
      obtain ⟨hp, hid'⟩ := hc c List.mem_cons_self hn
      rw [List.filter_cons_of_pos hn] at hd
      have hnot : c ∉ linked := fun hm =>
        (List.nodup_append.mp hd).2.2 c hm c List.mem_cons_self rfl
      have htx : t.node? c = some x := by
        rw [← hx, h.old hid', if_neg hnot]
      have hxp : x.parent = 0 := by simpa [parent, htx] using hp
      have hxs : x.sibling = 0 := by simpa [sibling, htx] using hroot c hp
      have hlast : (linked ++ [c]).getLastD 0 = c := by simp
      have hnext := ih (h.attach hid hx hxp hxs hid') (by simpa using hd) hrest
      rw [hlast] at hnext
      have hcond : ¬(x.parent ≠ 0 ∨ c = id) := by simp [hxp, hid']
      simpa only [link, hx, if_neg hcond] using hnext

/-! ## Adding nodes -/

/-- What adding a node does: it has some children that had no parent before, and these are chained
and have it as their parent now. -/
structure Adds (t t' : Tree) (tag : Tag) (symbol : String) (linked : List NodeId) : Prop where
  size : t'.size = t.size + 1
  nodup : linked.Nodup
  fresh {c : NodeId} (h : c ∈ linked) : ∃ x, t.node? c = some x ∧ x.parent = 0
  new : t'.node? (t.size + 1) = some { tag, symbol, child := linked.headD 0 }
  old {m : NodeId} (h : m ≠ t.size + 1) : t'.node? m =
    if m ∈ linked then
      (t.node? m).map fun x => { x with parent := t.size + 1, sibling := following m linked }
    else t.node? m

theorem leaf_adds (t : Tree) (tag : Tag) (symbol : String) :
    Adds t (t.leaf tag symbol).2 tag symbol [] where
  size := size_leaf t tag symbol
  nodup := List.nodup_nil
  fresh h := by simp at h
  new := by rw [node?_leaf, if_pos rfl, List.headD_nil]
  old h := by simp [node?_leaf, h]

private theorem isNode_leaf {t : Tree} (tag : Tag) {c : NodeId} (hc : c ≠ t.size + 1) :
    (t.leaf tag "").2.isNode c = t.isNode c := by
  rw [isNode, node?_leaf, if_neg hc, isNode]

section Node

variable {t : Tree} (h : t.Linked) (tag : Tag) (cs : List NodeId)

include h

private theorem leaf_root (m : NodeId) (hp : (t.leaf tag "").2.parent m = 0) :
    (t.leaf tag "").2.sibling m = 0 := by
  by_cases hm : m = t.size + 1
  · simp [sibling, node?_leaf, hm]
  · simp only [parent, sibling, node?_leaf, if_neg hm] at hp ⊢
    exact h.root hp

theorem node_adds :
    ∃ linked, Adds t (t.node tag cs).tree tag "" linked ∧
      ((t.node tag cs).fault = none →
        linked = cs.filter t.isNode ∧ ∀ c ∈ cs, c ≠ t.size + 1) := by
  obtain ⟨linked, hl, hf⟩ := link_links (Nat.succ_ne_zero t.size) (leaf_root h tag)
    (.nil (t.size + 1) (t.leaf tag "").2) cs
  rw [List.nil_append] at hl
  have hfresh : ∀ c ∈ linked, c ≠ t.size + 1 := fun c hc => (hl.fresh hc).1
  refine ⟨linked, ⟨?_, hl.nodup, fun {c} hc => ?_, ?_, fun {m} hm => ?_⟩, fun hn => ?_⟩
  · exact hl.size.trans (size_leaf t tag "")
  · obtain ⟨hne, x, hx, hp⟩ := hl.fresh hc
    rw [node?_leaf, if_neg hne] at hx
    exact ⟨x, hx, hp⟩
  · refine hl.self.trans ?_
    rw [node?_leaf, if_pos rfl]
    rfl
  · refine (hl.old hm).trans ?_
    rw [node?_leaf, if_neg hm]
  · have hmore := hf hn
    have hne : ∀ c ∈ cs, c ≠ t.size + 1 := by
      intro c hc he
      have hnode : (t.leaf tag "").2.isNode c = true :=
        isNode_of_node? (by rw [node?_leaf, if_pos he])
      exact hfresh c (hmore ▸ List.mem_filter.mpr ⟨hc, hnode⟩) he
    exact ⟨hmore.trans (List.filter_congr fun c hc => isNode_leaf tag (hne c hc)), hne⟩

/-- Linking succeeds when the candidates that exist are different, have no parents, and the new
node is not among them. -/
theorem node_fault_eq_none_iff :
    (t.node tag cs).fault = none ↔
      (cs.filter t.isNode).Nodup ∧
        ∀ c ∈ cs, c ≠ t.size + 1 ∧ (t.isNode c = true → t.parent c = 0) := by
  constructor
  · intro hn
    obtain ⟨linked, ha, hf⟩ := node_adds h tag cs
    obtain ⟨rfl, hne⟩ := hf hn
    refine ⟨ha.nodup, fun c hc => ⟨hne c hc, fun hnode => ?_⟩⟩
    obtain ⟨x, hx, hp⟩ := ha.fresh (List.mem_filter.mpr ⟨hc, hnode⟩)
    simp [parent, hx, hp]
  · rintro ⟨hd, hc⟩
    have hfilter : cs.filter (t.leaf tag "").2.isNode = cs.filter t.isNode :=
      List.filter_congr fun c hm => isNode_leaf tag (hc c hm).1
    refine link_fault_eq_none (Nat.succ_ne_zero t.size) (leaf_root h tag)
      (.nil (t.size + 1) (t.leaf tag "").2) (by simpa [hfilter] using hd) fun c hm hnode => ?_
    obtain ⟨hne, hp⟩ := hc c hm
    rw [isNode_leaf tag hne] at hnode
    refine ⟨?_, hne⟩
    rw [parent, node?_leaf, if_neg hne]
    exact hp hnode

end Node

namespace Adds

variable {t t' : Tree} {tag : Tag} {symbol : String} {linked : List NodeId}

private theorem isNode_of_mem (h : Adds t t' tag symbol linked) {c : NodeId} (hc : c ∈ linked) :
    t.isNode c = true := by
  obtain ⟨x, hx, _⟩ := h.fresh hc
  exact isNode_of_node? hx

theorem not_mem (h : Adds t t' tag symbol linked) : t.size + 1 ∉ linked := by
  intro hm
  have hn := h.isNode_of_mem hm
  rw [isNode_size_succ] at hn
  cases hn

theorem isNode (h : Adds t t' tag symbol linked) {m : NodeId} (hm : m ≠ t.size + 1) :
    t'.isNode m = t.isNode m := by
  simp only [Tree.isNode, h.old hm]
  split <;> simp

theorem parent (h : Adds t t' tag symbol linked) (m : NodeId) :
    t'.parent m =
      if m = t.size + 1 then 0 else if m ∈ linked then t.size + 1 else t.parent m := by
  by_cases hm : m = t.size + 1
  · simp [Tree.parent, hm, h.new]
  · simp only [Tree.parent, h.old hm, if_neg hm]
    split
    case isTrue hl =>
      obtain ⟨x, hx, _⟩ := h.fresh hl
      simp [hx]
    case isFalse => rfl

private theorem sibling (h : Adds t t' tag symbol linked) (m : NodeId) :
    t'.sibling m =
      if m = t.size + 1 then 0 else if m ∈ linked then following m linked else t.sibling m := by
  by_cases hm : m = t.size + 1
  · simp [Tree.sibling, hm, h.new]
  · simp only [Tree.sibling, h.old hm, if_neg hm]
    split
    case isTrue hl =>
      obtain ⟨x, hx, _⟩ := h.fresh hl
      simp [hx]
    case isFalse => rfl

theorem child (h : Adds t t' tag symbol linked) {m : NodeId} (hm : m ≠ t.size + 1) :
    t'.child m = t.child m := by
  simp only [Tree.child, h.old hm]
  split <;> simp [Function.comp_def]

/-- The chain of an older node is as it was, since its children have a parent. -/
theorem chain_old (h : Adds t t' tag symbol linked) (hl : t.Linked) {m : NodeId}
    (hm : m ≠ t.size + 1) : Chain t' (t'.child m) (t.children m) := by
  rw [h.child hm]
  refine (hl.chain m).congr fun c hc => ?_
  have hm0 : m ≠ 0 := Nat.ne_zero_of_lt (hl.lt hc)
  obtain ⟨hn, hp⟩ := (hl.mem_children hm0).mp hc
  have hne : c ≠ t.size + 1 := by
    rintro rfl
    rw [isNode_size_succ] at hn
    cases hn
  have hnot : c ∉ linked := by
    intro hmem
    obtain ⟨x, hx, h0⟩ := h.fresh hmem
    rw [Tree.parent, hx, Option.map_some, Option.getD_some, h0] at hp
    exact hm0 hp.symm
  rw [h.sibling, if_neg hne, if_neg hnot]

private theorem chain_new (h : Adds t t' tag symbol linked) :
    Chain t' (t'.child (t.size + 1)) linked := by
  have hhead : t'.child (t.size + 1) = linked.headD 0 := by simp [Tree.child, h.new]
  rw [hhead]
  refine chain_of_following h.nodup (fun h0 => ?_) fun c hc => ?_
  · exact absurd (h.isNode_of_mem h0) (by simp [Tree.isNode, node?])
  · have hne : c ≠ t.size + 1 := fun he => h.not_mem (he ▸ hc)
    rw [h.sibling, if_neg hne, if_pos hc]

theorem children (h : Adds t t' tag symbol linked) (hl : t.Linked) (m : NodeId) :
    t'.children m = if m = t.size + 1 then linked else t.children m := by
  rw [Tree.children, h.size]
  split
  case isTrue hm =>
    subst hm
    have hlen := length_le_size h.nodup fun c => h.isNode_of_mem
    exact h.chain_new.siblings_eq (Nat.le_succ_of_le hlen)
  case isFalse hm =>
    have hlen := length_siblings_le t t.size (t.child m)
    exact (h.chain_old hl hm).siblings_eq (Nat.le_succ_of_le hlen)

end Adds

/-- Adding a node keeps a tree linked. -/
theorem Linked.add {t t' : Tree} {tag : Tag} {symbol : String} {linked : List NodeId}
    (h : t.Linked) (ha : Adds t t' tag symbol linked) : t'.Linked := by
  have hch := ha.children h
  constructor
  · intro n c hm
    rw [hch] at hm
    split at hm
    case isTrue hn =>
      have hc := ((isNode_iff t c).mp (ha.isNode_of_mem hm)).2
      exact hn ▸ Nat.lt_succ_of_le hc
    case isFalse => exact h.lt hm
  · intro n c h0
    rw [hch, ha.parent]
    by_cases hc : c = t.size + 1
    · -- The new node has no parent, and nothing lists it.
      subst hc
      have hnot : t.size + 1 ∉ t.children n := fun hm => by
        have hn := ((h.mem_children h0).mp hm).1
        rw [isNode_size_succ] at hn
        cases hn
      simp only [if_true]
      split <;> simp [ha.not_mem, hnot, Ne.symm h0]
    · rw [if_neg hc, ha.isNode hc]
      by_cases hn : n = t.size + 1
      · -- Its children are the linked nodes, as it was the parent of none before.
        subst hn
        have hnone : ¬(t.isNode c = true ∧ t.parent c = t.size + 1) := by
          rw [← h.mem_children h0, children_of_not_isNode (isNode_size_succ t)]
          exact List.not_mem_nil
        rw [if_pos rfl]
        by_cases hl : c ∈ linked
        · simp [hl, ha.isNode_of_mem hl]
        · simpa [hl] using hnone
      · rw [if_neg hn, h.mem_children h0]
        by_cases hl : c ∈ linked
        · obtain ⟨x, hx, hp⟩ := ha.fresh hl
          simp [hl, Tree.parent, hx, hp, Ne.symm h0, Ne.symm hn]
        · rw [if_neg hl]
  · intro n
    rw [hch]
    split
    · exact ha.nodup
    · exact h.nodup n
  · intro n
    rw [hch]
    split
    case isTrue hn => exact hn ▸ ha.chain_new
    case isFalse hn => exact ha.chain_old h hn
  · intro n hp
    rw [ha.parent] at hp
    rw [ha.sibling]
    split
    · rfl
    case isFalse hn =>
      rw [if_neg hn] at hp
      split at hp
      · cases hp
      case isFalse hl =>
        rw [if_neg hl]
        exact h.root hp

/-- The trees that a builder makes, whether or not all links succeed. -/
inductive Built : Tree → Prop
  | empty (file : String) : Built ⟨file, #[]⟩
  | leaf {t : Tree} (h : Built t) (tag : Tag) (symbol : String) : Built (t.leaf tag symbol).2
  | node {t : Tree} (h : Built t) (tag : Tag) (children : List NodeId) :
      Built (t.node tag children).tree
  | setSymbol {t : Tree} (h : Built t) (n : NodeId) (symbol : String) : Built (t.setSymbol n symbol)
  | setLocation {t : Tree} (h : Built t) (n : NodeId) (line column : Int) :
      Built (t.setLocation n line column)

theorem Built.linked {t : Tree} (h : t.Built) : t.Linked := by
  induction h with
  | empty file => exact linked_empty file
  | leaf _ tag symbol ih => exact ih.add (leaf_adds _ tag symbol)
  | node _ tag children ih =>
    obtain ⟨linked, ha, _⟩ := node_adds ih tag children
    exact ih.add ha
  | setSymbol _ n symbol ih => exact ih.update n _ fun _ => rfl
  | setLocation _ n line column ih => exact ih.update n _ fun _ => rfl

theorem roots_sorted (t : Tree) : t.roots.Pairwise (· < ·) := by
  have hids : t.ids.Pairwise (· < ·) :=
    List.pairwise_map.mpr (List.pairwise_lt_range.imp Nat.succ_lt_succ)
  exact hids.filter _

/-- A tree that was built is a forest in which every node knows its place, also after links that
failed half way: the siblings from the first child on are the nodes with this parent, each once and
numbered below it, and a root has no sibling.  A new node gets those of the candidates that exist as
its children, in order, unless linking fails, and no other node loses or gets a child. -/
theorem built_forest {t : Tree} (h : t.Built) :
    (∀ n, n ≠ 0 → Chain t (t.child n) (t.children n) ∧ (t.children n).Nodup ∧
        ∀ c, c ∈ t.children n ↔ t.isNode c = true ∧ t.parent c = n) ∧
      (∀ c, t.parent c ≠ 0 → c < t.parent c) ∧
      (∀ n, t.parent n = 0 → t.sibling n = 0) ∧
      (t.roots.Pairwise (· < ·) ∧ ∀ n, n ∈ t.roots ↔ t.isNode n = true ∧ t.parent n = 0) ∧
      ∀ tag cs, let added := t.node tag cs
        (added.fault = none ↔ (cs.filter t.isNode).Nodup ∧
          ∀ c ∈ cs, c ≠ t.size + 1 ∧ (t.isNode c = true → t.parent c = 0)) ∧
        (t.isNode added.id = false ∧ added.tree.isNode added.id = true) ∧
        (added.fault = none → added.tree.children added.id = cs.filter t.isNode) ∧
        ∀ m, m ≠ added.id → added.tree.children m = t.children m := by
  have hl := h.linked
  refine ⟨fun n hn => ⟨hl.chain n, hl.nodup n, fun c => hl.mem_children hn⟩, fun c hc => ?_,
    fun n => hl.root, ⟨roots_sorted t, mem_roots t⟩, fun tag cs => ?_⟩
  · have hn : t.isNode c = true := by
      by_contra hn
      exact hc (by simp [parent, node?_eq_none (Bool.not_eq_true _ ▸ hn)])
    exact hl.lt ((hl.mem_children hc).mpr ⟨hn, rfl⟩)
  · obtain ⟨linked, ha, hf⟩ := node_adds hl tag cs
    refine ⟨node_fault_eq_none_iff hl tag cs, ⟨isNode_size_succ t, isNode_of_node? ha.new⟩,
      fun hn => ?_, fun m hm => ?_⟩
    · rw [← (hf hn).1]
      exact (ha.children hl _).trans (if_pos rfl)
    · exact (ha.children hl m).trans (if_neg hm)

/-- Node 5 takes 4 and 3 and then fails to take 4 once more. -/
def linkedTwice : Tree :=
  let t : Tree := ⟨"a.sv", #[]⟩
  let t := ((t.leaf .stringConst "x").2.leaf .stringConst "y").2
  let t := ((t.node .primary [2, 0, 9, 1]).tree.leaf .stringConst "z").2
  (t.node .expression [4, 3, 4, 7]).tree

theorem linkedTwice_built : linkedTwice.Built :=
  .node (.leaf (.node (.leaf (.leaf (.empty _) _ _) _ _) _ _) _ _) _ _

theorem built_forest_linkedTwice :
    linkedTwice.Built ∧ Chain linkedTwice 4 [4, 3] ∧ Chain linkedTwice 2 [2, 1] ∧
      (∀ c, c ∈ [4, 3] ↔ linkedTwice.isNode c = true ∧ linkedTwice.parent c = 5) ∧
      (linkedTwice.node .primary [5, 0]).tree.children 6 = [5] := by
  obtain ⟨hc, _, _, _, hn⟩ := built_forest linkedTwice_built
  obtain ⟨h5, _, hm⟩ := hc 5 (by decide)
  obtain ⟨h3, _⟩ := hc 3 (by decide)
  obtain ⟨_, _, hk, _⟩ := hn .primary [5, 0]
  exact ⟨linkedTwice_built, h5, h3, hm, hk (by decide)⟩

/-! ## Subtrees -/

/-- The node and all nodes below it, parents first.  Children are numbered below their parents,
which bounds the descent. -/
def subtree (t : Tree) (n : NodeId) : List NodeId :=
  if t.isNode n then
    n :: (t.children n).flatMap fun c => if _h : c < n then subtree t c else []
  else []
termination_by n

private theorem subtree_of_not_isNode {t : Tree} {n : NodeId} (h : t.isNode n = false) :
    t.subtree n = [] := by
  rw [subtree, h]
  rfl

@[simp] theorem subtree_zero (t : Tree) : t.subtree 0 = [] :=
  subtree_of_not_isNode rfl

namespace Linked

variable {t : Tree}

theorem subtree_eq (h : t.Linked) {n : NodeId} (hn : t.isNode n = true) :
    t.subtree n = n :: (t.children n).flatMap t.subtree := by
  rw [subtree, if_pos hn, List.cons.injEq]
  refine ⟨rfl, List.flatMap_congr fun c hc => ?_⟩
  rw [dif_pos (h.lt hc)]

theorem mem_subtree (h : t.Linked) {m n : NodeId} (hm : m ∈ t.subtree n) :
    t.isNode n = true ∧ (m = n ∨ ∃ c ∈ t.children n, m ∈ t.subtree c) := by
  cases hn : t.isNode n with
  | false => simp [subtree_of_not_isNode hn] at hm
  | true =>
    rw [h.subtree_eq hn, List.mem_cons, List.mem_flatMap] at hm
    exact ⟨rfl, hm⟩

theorem le_of_mem_subtree (h : t.Linked) {m n : NodeId} (hm : m ∈ t.subtree n) : m ≤ n := by
  induction n using Nat.strongRecOn with
  | ind n ih =>
    obtain ⟨_, rfl | ⟨c, hc, hmc⟩⟩ := h.mem_subtree hm
    · exact Nat.le_refl _
    · exact Nat.le_trans (ih c (h.lt hc) hmc) (Nat.le_of_lt (h.lt hc))

/-- A node below another one is the child of a node that is not above that one. -/
theorem exists_parent (h : t.Linked) {m n : NodeId} (hm : m ∈ t.subtree n) (hne : m ≠ n) :
    ∃ p ∈ t.subtree n, m ∈ t.children p := by
  induction n using Nat.strongRecOn with
  | ind n ih =>
    obtain ⟨hn, rfl | ⟨c, hc, hmc⟩⟩ := h.mem_subtree hm
    · exact absurd rfl hne
    · rw [h.subtree_eq hn]
      by_cases hmc' : m = c
      · exact ⟨n, by simp, hmc' ▸ hc⟩
      · obtain ⟨p, hp, hmp⟩ := ih c (h.lt hc) hmc hmc'
        exact ⟨p, List.mem_cons_of_mem n (List.mem_flatMap.mpr ⟨c, hc, hp⟩), hmp⟩

private theorem parent_unique (h : t.Linked) {m p q : NodeId} (hp : m ∈ t.children p)
    (hq : m ∈ t.children q) : p = q := by
  have hp0 : p ≠ 0 := Nat.ne_zero_of_lt (h.lt hp)
  have hq0 : q ≠ 0 := Nat.ne_zero_of_lt (h.lt hq)
  rw [← ((h.mem_children hp0).mp hp).2, ((h.mem_children hq0).mp hq).2]

/-- What is below one child is not below another. -/
theorem disjoint_subtree (h : t.Linked) {n c d : NodeId} (hc : c ∈ t.children n)
    (hd : d ∈ t.children n) (hne : c ≠ d) : (t.subtree c).Disjoint (t.subtree d) := by
  intro m hmc hmd
  -- A common node has a larger common node above it, which ends at one of the two.
  induction hk : n - m using Nat.strongRecOn generalizing m with
  | ind k ih =>
    have hlt : m < n := Nat.lt_of_le_of_lt (h.le_of_mem_subtree hmc) (h.lt hc)
    by_cases hmc' : m = c
    · obtain ⟨p, hp, hmp⟩ := h.exists_parent hmd (hmc' ▸ hne)
      have hpn : p = n := h.parent_unique hmp (hmc' ▸ hc)
      exact absurd (h.lt hd) (Nat.not_lt.mpr (hpn ▸ h.le_of_mem_subtree hp))
    · by_cases hmd' : m = d
      · obtain ⟨p, hp, hmp⟩ := h.exists_parent hmc hmc'
        have hpn : p = n := h.parent_unique hmp (hmd' ▸ hd)
        exact absurd (h.lt hc) (Nat.not_lt.mpr (hpn ▸ h.le_of_mem_subtree hp))
      · obtain ⟨p, hp, hmp⟩ := h.exists_parent hmc hmc'
        obtain ⟨q, hq, hmq⟩ := h.exists_parent hmd hmd'
        obtain rfl := h.parent_unique hmp hmq
        exact ih (n - p) (hk ▸ Nat.sub_lt_sub_left hlt (h.lt hmp)) hp hq rfl

theorem nodup_subtree (h : t.Linked) (n : NodeId) : (t.subtree n).Nodup := by
  induction n using Nat.strongRecOn with
  | ind n ih =>
    cases hn : t.isNode n with
    | false => simp [subtree_of_not_isNode hn]
    | true =>
      rw [h.subtree_eq hn, List.nodup_cons, List.nodup_flatMap]
      refine ⟨fun hm => ?_, fun c hc => ih c (h.lt hc), ?_⟩
      · obtain ⟨c, hc, hnc⟩ := List.mem_flatMap.mp hm
        exact absurd (h.lt hc) (Nat.not_lt.mpr (h.le_of_mem_subtree hnc))
      · refine (h.nodup n).imp_of_mem fun hc hd hne => ?_
        exact h.disjoint_subtree hc hd hne

end Linked

end HdlExpr.Tree
