import HdlExpr.Proofs.Tree.Outline
import HdlExpr.Proofs.Visiting

/-!
# What lies below a node

The form of a node, its value and what it is lowered to depend only on what the tree says of the
node and of the nodes below it.  A builder can add nodes, hang the node under one of them, and
rename and move others, and all of this stays as it was.
-/

namespace HdlExpr

namespace Tree

variable {t t' t'' : Tree} {x : NodeId}

/-- A node below another one, or no node. -/
def Below (t : Tree) (x m : NodeId) : Prop := m = 0 ∨ m ∈ t.subtree x

/-- Two trees say the same of a node, its parent and its siblings apart. -/
structure SameAt (t t' : Tree) (m : NodeId) : Prop where
  isNode : t'.isNode m = t.isNode m
  tag : t'.tag m = t.tag m
  symbol : t'.symbol m = t.symbol m
  location : t'.location m = t.location m
  child : t'.child m = t.child m
  children : t'.children m = t.children m

/-- Two trees say the same of a node and of all nodes below it. -/
def SameBelow (t t' : Tree) (x : NodeId) : Prop := ∀ m, t.Below x m → SameAt t t' m

theorem below_self (h : t.Linked) (hx : t.isNode x = true) : t.Below x x :=
  .inr (Form.singleton_sublist_subtree h hx |>.subset List.mem_cons_self)

theorem Linked.subtree_subset (h : t.Linked) {m : NodeId} (hm : m ∈ t.subtree x) :
    t.subtree m ⊆ t.subtree x := by
  induction x using Nat.strongRecOn with
  | ind x ih =>
    obtain ⟨-, rfl | ⟨c, hc, hmc⟩⟩ := h.mem_subtree hm
    · exact fun _ hk => hk
    · intro k hk
      have hkc := ih c (h.lt hc) hmc hk
      exact (Form.children_sublist h x).subset (List.mem_flatMap.mpr ⟨c, hc, hkc⟩)

namespace Below

private theorem of_mem_children (h : t.Linked) {m c : NodeId} (hm : t.Below x m)
    (hc : c ∈ t.children m) : t.Below x c := by
  have hm0 : m ≠ 0 := Nat.ne_zero_of_lt (h.lt hc)
  have hc' : t.isNode c = true := ((h.mem_children hm0).mp hc).1
  have hcm : c ∈ t.subtree m := by
    have hself := (Form.singleton_sublist_subtree h hc').subset List.mem_cons_self
    exact (Form.children_sublist h m).subset (List.mem_flatMap.mpr ⟨c, hc, hself⟩)
  exact .inr (h.subtree_subset (hm.resolve_left hm0) hcm)

private theorem child (h : t.Linked) {m : NodeId} (hm : t.Below x m) : t.Below x (t.child m) := by
  rw [h.child_eq]
  cases hc : t.children m with
  | nil => exact .inl rfl
  | cons c rest => exact hm.of_mem_children h (by simp [hc])

private theorem nth {ns : List NodeId} (hns : ∀ n ∈ ns, t.Below x n) (i : Nat) :
    t.Below x (Form.nth ns i) := by
  rw [Form.nth]
  cases hi : ns[i]? with
  | none => exact .inl rfl
  | some n => exact hns n (List.mem_of_getElem? hi)

end Below

theorem SameBelow.refl (t : Tree) (x : NodeId) : SameBelow t t x :=
  fun _ _ => ⟨rfl, rfl, rfl, rfl, rfl, rfl⟩

theorem SameBelow.subtree_eq (h : t.Linked) (hs : SameBelow t t' x) {m : NodeId}
    (hm : t.Below x m) : t'.subtree m = t.subtree m := by
  induction m using Nat.strongRecOn with
  | ind m ih =>
    rw [subtree, subtree.eq_def t, (hs m hm).isNode, (hs m hm).children]
    split
    · congr 1
      refine List.flatMap_congr fun c hc => ?_
      rw [dif_pos (h.lt hc), dif_pos (h.lt hc)]
      exact ih c (h.lt hc) (hm.of_mem_children h hc)
    · rfl

theorem SameAt.trans {m : NodeId} (h : SameAt t t' m) (h' : SameAt t' t'' m) : SameAt t t'' m where
  isNode := h'.isNode.trans h.isNode
  tag := h'.tag.trans h.tag
  symbol := h'.symbol.trans h.symbol
  location := h'.location.trans h.location
  child := h'.child.trans h.child
  children := h'.children.trans h.children

theorem SameBelow.trans (h : t.Linked) (hx : t.isNode x = true) (hs : SameBelow t t' x)
    (hs' : SameBelow t' t'' x) : SameBelow t t'' x := by
  intro m hm
  have hm' : t'.Below x m := by
    rw [Below, hs.subtree_eq h (below_self h hx)]
    exact hm
  exact (hs m hm).trans (hs' m hm')

end Tree

/-! ## Forms -/

namespace Form

open HdlExpr.Tree

variable {t t' : Tree} {x : NodeId} (h : t.Linked) (hs : SameBelow t t' x)

private theorem eventList_same {ns : List NodeId} (hns : ∀ n ∈ ns, t'.tag n = t.tag n) :
    eventList t' ns = eventList t ns := by
  fun_induction eventList t ns with
  | case1 op operand rest hop ih =>
    have hrest := ih fun n hn => hns n (by simp [hn])
    simp [eventList, hns op (by simp), hop, hrest]
  | case2 op operand rest hop => simp [eventList, hns op (by simp), hop]
  | case3 op hop => simp [eventList, hns op (by simp), hop]
  | case4 op hop => simp [eventList, hns op (by simp), hop]
  | case5 => rfl

private theorem eventList_below {ns : List NodeId} (hns : ∀ n ∈ ns, t.Below x n) :
    ∀ item ∈ eventList t ns, t.Below x item.2 := by
  fun_induction eventList t ns with
  | case1 op operand rest hop ih =>
    have hrest := ih fun n hn => hns n (by simp [hn])
    intro item hm
    rcases List.mem_cons.mp hm with rfl | hm
    · exact hns operand (by simp)
    · exact hrest item hm
  | case3 op hop =>
    intro item hm
    rw [List.mem_singleton.mp hm]
    exact .inl rfl
  | case2 | case4 | case5 => simp

include h in
private theorem clause?_below {n : NodeId} (hn : t.Below x n) {select : Select}
    (hc : clause? t n = some select) : ∀ m ∈ select.bounds, t.Below x m := by
  have hrange : ∀ m ∈ t.children (t.child n), t.Below x m :=
    fun m hm => (hn.child h).of_mem_children h hm
  unfold clause? at hc
  split at hc
  · obtain ⟨index, hi, rfl⟩ := Option.map_eq_some_iff.mp hc
    have hindex := hn.of_mem_children h (List.mem_of_mem_head? hi)
    simpa [Select.bounds] using hindex
  · dsimp only at hc
    split at hc <;> cases hc
    · simp only [Select.bounds, List.mem_cons, List.not_mem_nil, or_false, forall_eq_or_imp,
        forall_eq]
      exact ⟨.nth hrange 0, .nth hrange 1⟩
    · simp only [Select.bounds, List.mem_cons, List.not_mem_nil, or_false, forall_eq_or_imp,
        forall_eq]
      exact ⟨.nth hrange 0, .nth hrange 2⟩
  · cases hc

include h in
private theorem segments_below {ns : List NodeId} (hns : ∀ n ∈ ns, t.Below x n) :
    ∀ m ∈ (segments t ns).2.bounds, t.Below x m := by
  induction ns with
  | nil => simp [segments, Select.bounds]
  | cons n ns ih =>
    obtain ⟨hn, hns⟩ := List.forall_mem_cons.mp hns
    have hrest := ih hns
    rw [segments]
    split
    · exact hrest
    · split
      case h_1 select hsel =>
        obtain ⟨c, hc, hsel⟩ := List.exists_of_findSome?_eq_some hsel
        exact clause?_below h (hn.of_mem_children h hc) hsel
      case h_2 => exact hrest
    · exact hrest

include h in
/-- What the content of a node refers to lies below the node. -/
theorem content_below {child : NodeId} {rest : List NodeId} (hc : t.Below x child)
    (hrest : ∀ n ∈ rest, t.Below x n) :
    t.Below x (content t child rest).1 ∧
      ∀ m ∈ (content t child rest).2.operands, t.Below x m := by
  have hsegments := segments_below h hrest
  have hevents := eventList_below (t := t) (x := x) hrest
  unfold content
  dsimp only
  split
  · refine ⟨.nth hrest 0, ?_⟩
    simp only [Shape.operands, List.mem_cons, List.not_mem_nil, or_false, forall_eq_or_imp,
      forall_eq]
    exact ⟨hc, .nth hrest 1⟩
  split
  · refine ⟨hc, ?_⟩
    simp only [Shape.operands, List.mem_cons, List.not_mem_nil, or_false, forall_eq]
    exact .nth hrest 0
  split
  · exact ⟨hc, by simp [Shape.operands]⟩
  split
  case h_1 =>
    refine ⟨hc, ?_⟩
    simp only [Shape.operands, List.forall_mem_cons, List.forall_mem_map]
    exact ⟨hc, hevents⟩
  case h_2 => exact ⟨hc, hsegments⟩
  case h_3 =>
    refine ⟨hc, ?_⟩
    simp only [Shape.operands, List.mem_cons, List.not_mem_nil, or_false, forall_eq]
    exact hc
  case h_5 | h_6 => exact ⟨hc, fun m hm => hc.of_mem_children h hm⟩
  all_goals exact ⟨hc, by simp [Shape.operands]⟩

include h in
theorem decode_below {n : NodeId} (hn : t.Below x n) :
    t.Below x (decode t n).site ∧ ∀ m ∈ (decode t n).shape.operands, t.Below x m := by
  induction n using Nat.strongRecOn with
  | ind n ih =>
    rw [decode]
    split
    case isFalse => exact ⟨.inl rfl, by simp [Shape.operands]⟩
    case isTrue =>
      split
      case h_1 =>
        rw [(ofLeaf_node t n).2, (ofLeaf_operands t n).2]
        exact ⟨hn, by simp⟩
      case h_2 child rest hc =>
        have hall : ∀ m ∈ child :: rest, t.Below x m :=
          fun m hm => hn.of_mem_children h (hc ▸ hm)
        obtain ⟨hchild, hrest⟩ := List.forall_mem_cons.mp hall
        have hlt : child < n := h.lt (hc ▸ List.mem_cons_self)
        split
        · exact ih child hlt hchild
        · exact content_below h hchild hrest

include h hs

private theorem clause?_same {n : NodeId} (hn : t.Below x n) : clause? t' n = clause? t n := by
  have hchild := hs _ (hn.child h)
  have hrange : ∀ m ∈ t.children (t.child n), t.Below x m :=
    fun m hm => (hn.child h).of_mem_children h hm
  have hdirection := hs _ (Below.nth hrange 1)
  simp only [clause?, (hs n hn).tag, (hs n hn).children, (hs n hn).child, hchild.children,
    hchild.tag, hdirection.tag]

private theorem select?_same {n : NodeId} (hn : t.Below x n) : select? t' n = select? t n := by
  rw [select?, select?, (hs n hn).children]
  have hall : ∀ c ∈ t.children n, t.Below x c := fun c hc => hn.of_mem_children h hc
  generalize t.children n = cs at hall
  induction cs with
  | nil => rfl
  | cons c cs ih =>
    obtain ⟨hc, hcs⟩ := List.forall_mem_cons.mp hall
    rw [List.findSome?_cons, List.findSome?_cons, clause?_same h hs hc, ih hcs]

private theorem segments_same {ns : List NodeId} (hns : ∀ n ∈ ns, t.Below x n) :
    segments t' ns = segments t ns := by
  induction ns with
  | nil => rfl
  | cons n ns ih =>
    obtain ⟨hn, hns⟩ := List.forall_mem_cons.mp hns
    simp only [segments, (hs n hn).tag, (hs n hn).symbol, select?_same h hs hn, ih hns]

private theorem content_same {child : NodeId} {rest : List NodeId} (hc : t.Below x child)
    (hrest : ∀ n ∈ rest, t.Below x n) : content t' child rest = content t child rest := by
  have hfirst := hs _ (Below.nth hrest 0)
  have hevents := eventList_same fun n hn => (hs n (hrest n hn)).tag
  have hgrandchild := hs _ (hc.child h)
  simp only [content, ident, (hs child hc).tag, (hs child hc).symbol, (hs child hc).child,
    (hs child hc).children, hfirst.tag, hevents, segments_same h hs hrest, hgrandchild.symbol]

theorem decode_same {n : NodeId} (hn : t.Below x n) : decode t' n = decode t n := by
  induction n using Nat.strongRecOn with
  | ind n ih =>
    have hat := hs n hn
    rw [decode, decode.eq_def t, hat.isNode, hat.children]
    split
    · split
      case h_1 => simp only [ofLeaf, hat.tag, hat.symbol]
      case h_2 child rest hc =>
        have hall : ∀ m ∈ child :: rest, t.Below x m :=
          fun m hm => hn.of_mem_children h (hc ▸ hm)
        obtain ⟨hchild, hrest⟩ := List.forall_mem_cons.mp hall
        have hlt : child < n := h.lt (hc ▸ List.mem_cons_self)
        have hskip : isSkipped t' child rest = isSkipped t child rest := by
          simp only [isSkipped, (hs child hchild).tag]
        rw [hskip, if_pos hlt, if_pos hlt, ih child hlt hchild, content_same h hs hchild hrest]
    · rfl

end Form

/-! ## Both engines -/

private theorem congruence_eq (m : Type → Type) [Monad m] :
    Congruence fun α (x y : m α) => x = y where
  pure _ := rfl
  bind := by
    intro α β x y f g h hf
    rw [h, funext hf]

namespace Fold

open HdlExpr.Tree

theorem primitives_eq {m : Type → Type} [Monad m] [MonadLiftT Run m] :
    Primitives fun α (x y : m α) => x = y where
  toCongruence := congruence_eq m
  read := read_of_get (congruence_eq m) rfl
  store _ _ := rfl

/-- A visit looks at nothing else of a tree, in whatever it runs. -/
theorem visit_same {m : Type → Type} [Monad m] [MonadLiftT Run m] {t t' : Tree} {x n : NodeId}
    (h : t.Linked) (hs : SameBelow t t' x) (hn : t.Below x n) (mute : Bool) (limit : Nat)
    {recur recur' : NodeId → m Operand} (hrec : ∀ {k}, t.Below x k → recur k = recur' k) :
    visit ⟨t', mute, limit⟩ recur (Form.decode t n) =
      visit ⟨t, mute, limit⟩ recur' (Form.decode t n) := by
  obtain ⟨hsite, hoperands⟩ := Form.decode_below h hn
  refine visit_related primitives_eq (Form.decode t n) (fun name => ?_)
    fun k hk => hrec (hoperands k hk)
  simp only [unresolved, (hs _ hsite).location]

private theorem fold_same {t t' : Tree} {x : NodeId} (h : t.Linked) (hs : SameBelow t t' x)
    (mute : Bool) (limit budget : Nat) {n : NodeId} (hn : t.Below x n) :
    fold ⟨t', mute, limit⟩ budget n = fold ⟨t, mute, limit⟩ budget n := by
  induction budget generalizing n with
  | zero => simp only [fold, warn, (hs n hn).location]
  | succ budget ih =>
    have hsite := (hs _ (Form.decode_below h hn).1).location
    simp only [fold, Form.decode_same h hs hn, hsite, visit_same h hs hn mute limit ih]

end Fold

namespace Lower

open HdlExpr.Tree

theorem primitives_eq {m : Type → Type} [Monad m] [MonadLiftT Run m] :
    Primitives fun α (x y : m α) => x = y where
  toCongruence := congruence_eq m
  issue _ := rfl
  literal _ _ _ := rfl
  plainName _ _ _ := rfl

theorem lowerNode_same {t t' : Tree} {x : NodeId} (h : t.Linked) (hs : SameBelow t t' x)
    (limit budget : Nat) {n : NodeId} (hn : t.Below x n) (parent : Nat) (σ : Substitution) :
    lowerNode ⟨t', limit⟩ budget n parent σ = lowerNode ⟨t, limit⟩ budget n parent σ := by
  induction budget generalizing n parent σ with
  | zero => simp only [lowerNode, warn, (hs n hn).location]
  | succ budget ih =>
    obtain ⟨hsite, hoperands⟩ := Form.decode_below h hn
    have hvisit := visit_related primitives_eq (Form.decode t n) parent σ
      fun m hm parent σ => ih (hoperands m hm) parent σ
    simp only [lowerNode, Form.decode_same h hs hn, (hs _ hsite).location, hvisit]

end Lower

/-! ## Building on -/

namespace Tree

variable {t t' : Tree} {x : NodeId}

theorem file_update (t : Tree) (n : NodeId) (f : Node → Node) : (t.update n f).file = t.file := by
  cases n <;> rfl

private theorem file_link (id : NodeId) (t : Tree) (last : NodeId) (cs : List NodeId) :
    (link id t last cs).1.file = t.file := by
  induction cs generalizing t last with
  | nil => rfl
  | cons c rest ih =>
    rw [link]
    split
    · exact ih t last
    · split
      · rfl
      · rw [ih, attach]
        split <;> rw [file_update, file_update]

theorem file_node (t : Tree) (tag : Tag) (cs : List NodeId) :
    (t.node tag cs).tree.file = t.file :=
  file_link (t.size + 1) (t.leaf tag "").2 0 cs

theorem Linked.ne_size_succ_of_below (h : t.Linked) (hx : t.isNode x = true) {m : NodeId}
    (hm : t.Below x m) : m ≠ t.size + 1 := by
  have hsize := ((isNode_iff t x).mp hx).2
  rcases hm with rfl | hm
  · exact Ne.symm (Nat.succ_ne_zero t.size)
  · have hle := Nat.le_trans (h.le_of_mem_subtree hm) hsize
    exact Nat.ne_of_lt (Nat.lt_succ_of_le hle)

/-- Adding a node changes nothing below a node that is there, even if it takes this node as a
child: only the parent and the sibling of the node itself change. -/
theorem Adds.sameBelow {tag : Tag} {symbol : String} {linked : List NodeId}
    (ha : Adds t t' tag symbol linked) (h : t.Linked) (hfile : t'.file = t.file)
    (hx : t.isNode x = true) : SameBelow t t' x := by
  intro m hm
  have hne := h.ne_size_succ_of_below hx hm
  refine ⟨ha.isNode hne, ha.tag_old hne, ha.symbol_old hne, ?_, ha.child hne, ?_⟩
  · rw [location, location, ha.old hne, hfile]
    by_cases hlinked : m ∈ linked
    · rw [if_pos hlinked]
      cases t.node? m <;> rfl
    · rw [if_neg hlinked]
  · rw [ha.children h, if_neg hne]

theorem children_update (n : NodeId) {f : Node → Node}
    (hf : ∀ y, (f y).child = y.child ∧ (f y).sibling = y.sibling) :
    (t.update n f).child = t.child ∧ (t.update n f).children = t.children := by
  have hchild : (t.update n f).child = t.child := by
    funext m
    rw [child, child, node?_update]
    split
    · rw [Option.map_map]
      congr 2
      funext y
      exact (hf y).1
    · rfl
  have hsibling : (t.update n f).sibling = t.sibling := by
    funext m
    rw [sibling, sibling, node?_update]
    split
    · rw [Option.map_map]
      congr 2
      funext y
      exact (hf y).2
    · rfl
  refine ⟨hchild, funext fun m => ?_⟩
  rw [children, hchild, size_update, children]
  generalize t.size = bound, t.child m = k
  induction bound generalizing k with
  | zero => rfl
  | succ bound ih => rw [siblings, siblings, hsibling, ih]

/-- Changing the text or the place of a node changes nothing below a node that it is not below. -/
theorem sameBelow_update {n : NodeId} {f : Node → Node} (hn : n ∉ t.subtree x)
    (hf : ∀ y, (f y).child = y.child ∧ (f y).sibling = y.sibling) :
    SameBelow t (t.update n f) x := by
  intro m hm
  have hnode : (t.update n f).node? m = t.node? m := by
    rw [node?_update]
    split
    case isTrue he =>
      rcases hm with rfl | hm
      · rfl
      · exact absurd (he ▸ hm) hn
    case isFalse => rfl
  obtain ⟨hchild, hchildren⟩ := children_update (t := t) n hf
  refine ⟨?_, ?_, ?_, ?_, congrFun hchild m, congrFun hchildren m⟩
  · rw [isNode, isNode, hnode]
  · rw [Tree.tag, Tree.tag, hnode]
  · rw [symbol, symbol, hnode]
  · rw [location, location, hnode, file_update]

/-- What a builder may do later: add nodes, whether or not all links succeed, and change texts and
places of nodes that are not below `x`. -/
inductive Later (x : NodeId) (t : Tree) : Tree → Prop
  | refl : Later x t t
  | leaf {t' : Tree} (h : Later x t t') (tag : Tag) (symbol : String) :
      Later x t (t'.leaf tag symbol).2
  | node {t' : Tree} (h : Later x t t') (tag : Tag) (children : List NodeId) :
      Later x t (t'.node tag children).tree
  | setSymbol {t' : Tree} (h : Later x t t') {n : NodeId} (hn : n ∉ t'.subtree x)
      (symbol : String) : Later x t (t'.setSymbol n symbol)
  | setLocation {t' : Tree} (h : Later x t t') {n : NodeId} (hn : n ∉ t'.subtree x)
      (line column : Int) : Later x t (t'.setLocation n line column)

theorem Later.built (hl : Later x t t') (h : t.Built) : t'.Built := by
  induction hl with
  | refl => exact h
  | leaf _ tag symbol ih => exact ih.leaf tag symbol
  | node _ tag children ih => exact ih.node tag children
  | setSymbol _ _ symbol ih => exact ih.setSymbol _ symbol
  | setLocation _ _ line column ih => exact ih.setLocation _ line column

theorem Later.sameBelow (hl : Later x t t') (h : t.Built) (hx : t.isNode x = true) :
    SameBelow t t' x := by
  induction hl with
  | refl => exact .refl t x
  | @leaf t' hl tag symbol ih =>
    have hx' := (ih x (below_self h.linked hx)).isNode.trans hx
    exact ih.trans h.linked hx
      ((leaf_adds t' tag symbol).sameBelow (hl.built h).linked rfl hx')
  | @node t' hl tag children ih =>
    have hx' := (ih x (below_self h.linked hx)).isNode.trans hx
    obtain ⟨linked, ha, -⟩ := node_adds (hl.built h).linked tag children
    exact ih.trans h.linked hx
      (ha.sameBelow (hl.built h).linked (file_node t' tag children) hx')
  | setSymbol _ hn symbol ih =>
    exact ih.trans h.linked hx (sameBelow_update hn fun _ => ⟨rfl, rfl⟩)
  | setLocation _ hn line column ih =>
    exact ih.trans h.linked hx (sameBelow_update hn fun _ => ⟨rfl, rfl⟩)

/-- Expressions in one tree do not interfere.  However the builder goes on, as long as it changes no
text and no place below a node, the node keeps its form, its value over every scope with all that is
stored and reported, and what it is lowered to. -/
theorem expression_kept (h : t.Built) (hx : t.isNode x = true) (hl : Later x t t') :
    Form.decode t' x = Form.decode t x ∧
    (∀ mute limit scope,
      Fold.evaluate ⟨t', mute, limit⟩ x scope = Fold.evaluate ⟨t, mute, limit⟩ x scope) ∧
    ∀ limit parent σ factory,
      Lower.lower ⟨t', limit⟩ x parent σ factory = Lower.lower ⟨t, limit⟩ x parent σ factory := by
  have hs := hl.sameBelow h hx
  have hself := below_self h.linked hx
  refine ⟨Form.decode_same h.linked hs hself, fun mute limit scope => ?_,
    fun limit parent σ factory => ?_⟩
  · simp only [Fold.evaluate, Fold.fold_same h.linked hs mute limit limit hself]
  · simp only [Lower.lower, Lower.lowerNode_same h.linked hs limit limit hself]

/-- The name `a[i]` at node 6, and `b` at node 7. -/
def selectedName : Tree :=
  let t : Tree := ⟨"a.sv", #[]⟩
  let t := ((t.leaf .stringConst "a").2.leaf .stringConst "i").2
  let t := ((t.node .primary [2]).tree.node .bitSelect [3]).tree
  let t := ((t.node .select [4]).tree.node .primary [1, 5]).tree
  (t.leaf .stringConst "b").2

/-- Node 8 takes 7 and 6 and fails to take 6 once more, and then 7 gets another text and 8 another
place. -/
theorem expression_kept_selectedName :
    let t := (selectedName.node .expression [7, 6, 6]).tree
    let t' := (t.setSymbol 7 "c").setLocation 8 3 1
    (selectedName.node .expression [7, 6, 6]).fault = some ⟨.expression, .primary⟩ ∧
      t'.parent 6 = 8 ∧ t'.symbol 7 = "c" ∧ Form.decode t' 6 = Form.decode selectedName 6 ∧
      (∀ mute limit scope, Fold.evaluate ⟨t', mute, limit⟩ 6 scope =
        Fold.evaluate ⟨selectedName, mute, limit⟩ 6 scope) ∧
      ∀ limit parent σ factory, Lower.lower ⟨t', limit⟩ 6 parent σ factory =
        Lower.lower ⟨selectedName, limit⟩ 6 parent σ factory := by
  have hbuilt : selectedName.Built :=
    .leaf (.node (.node (.node (.node (.leaf (.leaf (.empty _) _ _) _ _) _ _) _ _) _ _) _ _) _ _
  have hlater : Later 6 selectedName (((selectedName.node .expression [7, 6, 6]).tree.setSymbol 7
      "c").setLocation 8 3 1) :=
    .setLocation (.setSymbol (.node .refl _ _) (by decide +kernel) _) (by decide +kernel) _ _
  exact ⟨by decide, by decide, by decide, expression_kept hbuilt (by decide) hlater⟩

end Tree

end HdlExpr
