import Mathlib.Data.List.Flatten
import Mathlib.Data.List.Perm.Subperm
import HdlExpr.Form
import HdlExpr.Proofs.Tree.Linked

/-!
# Forms that nodes have

The operators of a form are of the kind that its shape asks for, and its operands lie in different
parts of the tree below the node, apart from the operator that steps one of them.
-/

namespace HdlExpr

/-- The bounds of a select, from left to right. -/
def Select.bounds : Select → List NodeId
  | .none => []
  | .bit index => [index]
  | .part left right => [left, right]
  | .indexed base _ width => [base, width]

/-- The operands of a shape, from left to right. -/
def Shape.operands : Shape → List NodeId
  | .unary _ operand | .lvalue operand _ => [operand]
  | .binary left _ right => [left, right]
  | .events first rest => first :: rest.map (·.2)
  | .name ident => ident.select.bounds
  | .concat _ operands => operands
  | .empty | .literal .. | .call _ => []

/-- The tag of the operator that steps the operand of a shape. -/
def Shape.stepTag? : Shape → Option Tag
  | .unary op _ => if op.postOp?.isSome then some op else none
  | .lvalue _ op => op
  | _ => none

/-- The operators of a shape stand for operations: those before an operand for unary ones, those
behind one for steps, and those between events for ways to join them. -/
def Shape.Regular : Shape → Prop
  | .unary op _ => op.unaryOp?.isSome
  | .events _ rest => ∀ item ∈ rest, item.1.combinator?.isSome
  | .lvalue _ (some op) => op.postOp?.isSome
  | _ => True

namespace Form

private theorem eventList_combinators (t : Tree) (ns : List NodeId) :
    ∀ item ∈ eventList t ns, item.1.combinator?.isSome := by
  fun_induction eventList t ns with
  | case1 op operand rest h ih => simpa [h] using ih
  | case3 op h => simpa using h
  | case2 | case4 | case5 => simp

private theorem ofLeaf_regular (t : Tree) (n : NodeId) : (ofLeaf t n).shape.Regular := by
  unfold ofLeaf
  dsimp only
  split
  · trivial
  · split <;> trivial

private theorem content_regular (t : Tree) (child : NodeId) (rest : List NodeId) :
    (content t child rest).2.Regular := by
  unfold content
  dsimp only
  split
  · trivial
  split
  · assumption
  split
  · trivial
  split
  case h_1 => exact eventList_combinators t rest
  case h_3 =>
    dsimp only
    split
    · assumption
    · trivial
  all_goals trivial

theorem decode_regular (t : Tree) (n : NodeId) : (decode t n).shape.Regular := by
  induction n using Nat.strongRecOn with
  | ind n ih =>
    rw [decode]
    split
    · split
      · exact ofLeaf_regular t n
      · split
        · split
          · exact ih _ ‹_›
          · trivial
        · exact content_regular t _ _
    · trivial

/-! ## One turn of the descent -/

section Turn

variable {t : Tree} {n child : NodeId} {rest : List NodeId}

/-- A first child that has a tag is a child. -/
theorem exists_children (hl : t.Linked) (hfirst : t.tag (t.child n) ≠ .invalid) :
    ∃ rest, t.children n = t.child n :: rest := by
  have hchild := hl.child_eq n
  cases hc : t.children n with
  | nil =>
    rw [hchild, hc] at hfirst
    exact absurd rfl hfirst
  | cons first rest =>
    rw [hc, List.headD_cons] at hchild
    exact ⟨rest, by rw [hchild]⟩

theorem decode_missing (h : t.isNode n = false) : decode t n = ⟨n, 0, .empty⟩ := by
  rw [decode, h]
  rfl

theorem decode_leaf (h : t.isNode n = true) (hc : t.children n = []) :
    decode t n = ofLeaf t n := by
  rw [decode, if_pos h]
  simp only [hc]

theorem decode_skipped (hl : t.Linked) (hc : t.children n = child :: rest)
    (hs : isSkipped t child rest = true) : decode t n = decode t child := by
  have hmem : child ∈ t.children n := by simp [hc]
  rw [decode, if_pos (Tree.isNode_of_mem_children hmem)]
  simp only [hc, hs, if_true, if_pos (hl.lt hmem)]

theorem decode_content (hc : t.children n = child :: rest) (hs : isSkipped t child rest = false) :
    decode t n = ⟨n, (content t child rest).1, (content t child rest).2⟩ := by
  have hmem : child ∈ t.children n := by simp [hc]
  rw [decode, if_pos (Tree.isNode_of_mem_children hmem)]
  simp only [hc, hs, Bool.false_eq_true, if_false]

end Turn

/-! ## Operands -/

section Operands

variable {t : Tree}

private theorem isNode_of_tag {n : NodeId} (h : t.tag n ≠ .invalid) : t.isNode n = true := by
  unfold Tree.tag at h
  unfold Tree.isNode
  cases hx : t.node? n with
  | none => simp [hx] at h
  | some x => rfl

theorem singleton_sublist_subtree (h : t.Linked) {n : NodeId} (hn : t.isNode n = true) :
    [n].Sublist (t.subtree n) := by
  rw [h.subtree_eq hn]
  simp

private theorem subtree_sublist {ns : List NodeId} {n : NodeId} (h : n ∈ ns) :
    (t.subtree n).Sublist (ns.flatMap t.subtree) := by
  simpa using (List.singleton_sublist.mpr h).flatMap t.subtree

theorem children_sublist (h : t.Linked) (n : NodeId) :
    ((t.children n).flatMap t.subtree).Sublist (t.subtree n) := by
  cases hn : t.isNode n with
  | true =>
    rw [h.subtree_eq hn]
    exact List.sublist_cons_self _ _
  | false => simp [Tree.children_of_not_isNode hn]

private theorem nth_sublist (ns : List NodeId) (i : Nat) :
    (t.subtree (nth ns i)).Sublist (ns.flatMap t.subtree) := by
  cases hi : ns[i]? with
  | none => simp [nth, hi]
  | some n =>
    rw [nth, hi]
    exact subtree_sublist (List.mem_of_getElem? hi)

private theorem nth_pair_sublist (ns : List NodeId) (i : Nat) :
    ([nth ns 0, nth ns (i + 1)].flatMap t.subtree).Sublist (ns.flatMap t.subtree) := by
  cases ns with
  | nil => simp [nth]
  | cons n ns =>
    have hn : nth (n :: ns) (i + 1) = nth ns i := by simp [nth]
    simpa [hn, nth] using nth_sublist (t := t) ns i

private theorem eventList_sublist (ns : List NodeId) :
    (((eventList t ns).map (·.2)).flatMap t.subtree).Sublist (ns.flatMap t.subtree) := by
  fun_induction eventList t ns with
  | case1 op operand rest h ih =>
    simp only [List.map_cons, List.flatMap_cons]
    exact ((List.Sublist.refl _).append ih).trans (List.sublist_append_right _ _)
  | case2 | case3 | case4 | case5 => simp

private theorem clause?_sublist (h : t.Linked) {n : NodeId} {select : Select}
    (hs : clause? t n = some select) :
    (select.bounds.flatMap t.subtree).Sublist (t.subtree n) := by
  have hchild : (t.subtree (t.child n)).Sublist (t.subtree n) := by
    have hn := (nth_sublist (t := t) (t.children n) 0).trans (children_sublist h n)
    simpa [nth, h.child_eq, List.headD_eq_head?_getD, List.head?_eq_getElem?] using hn
  have hrange := (children_sublist h (t.child n)).trans hchild
  unfold clause? at hs
  split at hs
  · obtain ⟨index, hi, rfl⟩ := Option.map_eq_some_iff.mp hs
    have hm := subtree_sublist (t := t) (List.mem_of_mem_head? hi)
    simpa [Select.bounds] using hm.trans (children_sublist h n)
  · dsimp only at hs
    split at hs <;> cases hs
    · exact (nth_pair_sublist _ 0).trans hrange
    · exact (nth_pair_sublist _ 1).trans hrange
  · cases hs

private theorem select?_sublist (h : t.Linked) {n : NodeId} {select : Select}
    (hs : select? t n = some select) :
    (select.bounds.flatMap t.subtree).Sublist (t.subtree n) := by
  obtain ⟨c, hc, hs⟩ := List.exists_of_findSome?_eq_some hs
  exact ((clause?_sublist h hs).trans (subtree_sublist hc)).trans (children_sublist h n)

private theorem segments_sublist (h : t.Linked) (ns : List NodeId) :
    ((segments t ns).2.bounds.flatMap t.subtree).Sublist (ns.flatMap t.subtree) := by
  induction ns with
  | nil => simp [segments, Select.bounds]
  | cons n rest ih =>
    have hrest := ih.trans (List.sublist_append_right (t.subtree n) _)
    rw [List.flatMap_cons, segments]
    split
    · exact hrest
    · split
      case h_1 select hs => exact (select?_sublist h hs).trans (List.sublist_append_left _ _)
      case h_2 => exact hrest
    · exact hrest

/-- Operands of a node with children `child` and `rest`, and the operator that steps one of them,
are found in different subtrees of the children. -/
theorem content_subperm (h : t.Linked) {child : NodeId} (hc : t.isNode child = true)
    (rest : List NodeId) :
    ∃ ops : List NodeId, ops.map t.tag = (content t child rest).2.stepTag?.toList ∧
      (ops ++ (content t child rest).2.operands.flatMap t.subtree).Subperm
        ((child :: rest).flatMap t.subtree) := by
  have hself := singleton_sublist_subtree h hc
  have hpair (i : Nat) := nth_pair_sublist (t := t) (child :: rest) i
  unfold content
  dsimp only
  split
  · exact ⟨[], rfl, (hpair 1).subperm⟩
  split
  · -- The operator is the first child, and steps if it can also stand behind its operand.
    cases hp : (t.tag child).postOp?.isSome with
    | true =>
      refine ⟨[child], by simp [Shape.stepTag?, hp], ?_⟩
      have hop : (t.subtree (nth rest 0)).Sublist (rest.flatMap t.subtree) := nth_sublist rest 0
      simpa [Shape.operands] using (hself.append hop).subperm
    | false =>
      refine ⟨[], by simp [Shape.stepTag?, hp], ?_⟩
      have hop := (nth_sublist (t := t) rest 0).trans
        (List.sublist_append_right (t.subtree child) _)
      simpa [Shape.operands] using hop.subperm
  split
  · exact ⟨[], rfl, List.nil_subperm⟩
  split
  case h_1 =>
    refine ⟨[], rfl, ?_⟩
    exact ((List.Sublist.refl (t.subtree child)).append (eventList_sublist rest)).subperm
  case h_2 =>
    refine ⟨[], rfl, ?_⟩
    exact ((segments_sublist h rest).trans (List.sublist_append_right (t.subtree child) _)).subperm
  case h_3 =>
    dsimp only
    split
    case isTrue hp =>
      have hn : t.isNode (nth rest 0) = true := by
        refine isNode_of_tag fun hi => ?_
        simp [hi, Tag.postOp?] at hp
      refine ⟨[nth rest 0], rfl, ?_⟩
      have hop := (singleton_sublist_subtree h hn).trans (nth_sublist rest 0)
      have hboth := ((List.Sublist.refl (t.subtree child)).append hop).subperm
      simpa [Shape.operands] using List.perm_append_comm.subperm.trans hboth
    case isFalse =>
      refine ⟨[], rfl, ?_⟩
      have hop := List.sublist_append_left (t.subtree child) (rest.flatMap t.subtree)
      simpa [Shape.operands] using hop.subperm
  case h_5 | h_6 =>
    refine ⟨[], rfl, ?_⟩
    exact ((children_sublist h child).trans (List.sublist_append_left _ _)).subperm
  all_goals exact ⟨[], rfl, List.nil_subperm⟩

theorem ofLeaf_node (t : Tree) (n : NodeId) : (ofLeaf t n).node = n ∧ (ofLeaf t n).site = n := by
  unfold ofLeaf
  dsimp only
  split
  · exact ⟨rfl, rfl⟩
  · split <;> exact ⟨rfl, rfl⟩

theorem ofLeaf_operands (t : Tree) (n : NodeId) :
    (ofLeaf t n).shape.stepTag? = none ∧ (ofLeaf t n).shape.operands = [] := by
  unfold ofLeaf
  dsimp only
  split
  · exact ⟨rfl, rfl⟩
  · split <;> exact ⟨rfl, rfl⟩

/-- Operands of a form, and the operator that steps one of them, are found in different subtrees
below the node. -/
theorem decode_subperm (h : t.Linked) (n : NodeId) :
    ∃ ops : List NodeId, ops.map t.tag = (decode t n).shape.stepTag?.toList ∧
      (ops ++ (decode t n).shape.operands.flatMap t.subtree).Subperm (t.subtree n) := by
  induction n using Nat.strongRecOn with
  | ind n ih =>
    rw [decode]
    split
    case isFalse => exact ⟨[], rfl, List.nil_subperm⟩
    case isTrue hn =>
      split
      case h_1 =>
        obtain ⟨hs, ho⟩ := ofLeaf_operands t n
        exact ⟨[], by simp [hs], by simp [ho, List.nil_subperm]⟩
      case h_2 child rest hc =>
        have hm : child ∈ t.children n := by simp [hc]
        have hn0 : n ≠ 0 := Nat.ne_zero_of_lt (h.lt hm)
        have hsub := children_sublist h n
        rw [hc] at hsub
        split
        · rw [if_pos (h.lt hm)]
          obtain ⟨ops, hops, hp⟩ := ih child (h.lt hm)
          have hchild := subtree_sublist (t := t) (List.mem_cons_self (a := child) (l := rest))
          exact ⟨ops, hops, hp.trans (hchild.trans hsub).subperm⟩
        · obtain ⟨ops, hops, hp⟩ := content_subperm h ((h.mem_children hn0).mp hm).1 rest
          exact ⟨ops, hops, hp.trans hsub.subperm⟩

end Operands

end Form

end HdlExpr
