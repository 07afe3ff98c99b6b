import HdlExpr.Proofs.Below
import HdlExpr.Proofs.Observation

/-!
# Wrapping

A node whose only child is a wrapper, or an operand without an operator, says what this child says.
So a builder can put any number of such layers around an expression: neither engine sees them, and
they do not count as nesting.
-/

namespace HdlExpr

/-- Tags of nodes that are skipped as an only child. -/
def Tag.isTransparent (tag : Tag) : Bool := tag.isWrapper || tag.isOperandChain

/-! ## Nodes that say the same -/

/-- Two nodes, each in its tree, that no engine tells apart, whatever its options.  Under a limit of
zero nothing is looked at, and only what is logged then may differ. -/
structure Indistinct (t : Tree) (n : NodeId) (t' : Tree) (n' : NodeId) : Prop where
  form : Form.decode t n = Form.decode t' n'
  evaluated (e : Evaluator) (scope : Scope) (mute : Bool) :
    let out := e.evaluate t n scope mute
    let out' := e.evaluate t' n' scope mute
    out.value = out'.value ∧ out.scope = out'.scope ∧ out.diagnostics = out'.diagnostics ∧
      (e.limit ≠ 0 → out.log = out'.log)
  lowered (limit parent : Nat) (σ : Lower.Substitution) (factory : Ir.Factory) :
    let out := Lower.lower ⟨t, limit⟩ n parent σ factory
    let out' := Lower.lower ⟨t', limit⟩ n' parent σ factory
    out.node = out'.node ∧ out.factory = out'.factory ∧ (limit ≠ 0 → out.reports = out'.reports)

theorem Evaluator.fold_same (e : Evaluator) {t t' : Tree} {x : NodeId} (h : t.Linked)
    (hs : Tree.SameBelow t t' x) (mute : Bool) (limit budget : Nat) {n : NodeId}
    (hn : t.Below x n) :
    e.fold ⟨t', mute, limit⟩ budget n = e.fold ⟨t, mute, limit⟩ budget n := by
  induction budget generalizing n with
  | zero => simp only [fold, Fold.warn, (hs n hn).location]
  | succ budget ih =>
    have hsite := (hs _ (Form.decode_below h hn).1).location
    simp only [fold, Form.decode_same h hs hn, hsite, Fold.visit_same h hs hn mute limit ih]

namespace Indistinct

variable {t t' t'' : Tree} {n n' n'' : NodeId}

private theorem trans (h : Indistinct t n t' n') (h' : Indistinct t' n' t'' n'') :
    Indistinct t n t'' n'' where
  form := h.form.trans h'.form
  evaluated e scope mute := by
    obtain ⟨hvalue, hscope, hsink, hlog⟩ := h.evaluated e scope mute
    obtain ⟨hvalue', hscope', hsink', hlog'⟩ := h'.evaluated e scope mute
    exact ⟨hvalue.trans hvalue', hscope.trans hscope', hsink.trans hsink',
      fun h0 => (hlog h0).trans (hlog' h0)⟩
  lowered limit parent σ factory := by
    obtain ⟨hnode, hfactory, hreports⟩ := h.lowered limit parent σ factory
    obtain ⟨hnode', hfactory', hreports'⟩ := h'.lowered limit parent σ factory
    exact ⟨hnode.trans hnode', hfactory.trans hfactory',
      fun h0 => (hreports h0).trans (hreports' h0)⟩

/-- Nodes are not told apart when the engines run in the same way as soon as they look at them. -/
theorem of_runs (hform : Form.decode t n = Form.decode t' n')
    (hfold : ∀ (e : Evaluator) mute limit budget,
      e.fold ⟨t, mute, limit⟩ (budget + 1) n = e.fold ⟨t', mute, limit⟩ (budget + 1) n')
    (hlower : ∀ limit budget parent σ,
      Lower.lowerNode ⟨t, limit⟩ (budget + 1) n parent σ =
        Lower.lowerNode ⟨t', limit⟩ (budget + 1) n' parent σ) : Indistinct t n t' n' where
  form := hform
  evaluated e scope mute := by
    obtain ⟨sink, logger, limit, suggest⟩ := e
    cases limit with
    | zero => exact ⟨rfl, rfl, rfl, fun h0 => absurd rfl h0⟩
    | succ limit =>
      simp only [Evaluator.evaluate, hfold]
      exact ⟨trivial, trivial, trivial, fun _ => trivial⟩
  lowered limit parent σ factory := by
    cases limit with
    | zero => exact ⟨rfl, rfl, fun h0 => absurd rfl h0⟩
    | succ limit =>
      simp only [Lower.lower, hlower]
      exact ⟨trivial, trivial, fun _ => trivial⟩

/-- Engines see a node only through its form. -/
theorem of_form (h : Form.decode t n = Form.decode t n') : Indistinct t n t n' :=
  of_runs h (fun e mute limit budget => by simp only [Evaluator.fold, h])
    fun limit budget parent σ => by simp only [Lower.lowerNode, h]

private theorem of_sameBelow (hl : t.Linked) (hn : t.isNode n = true) (hs : Tree.SameBelow t t' n) :
    Indistinct t' n t n := by
  have hself := Tree.below_self hl hn
  refine of_runs (Form.decode_same hl hs hself) (fun e mute limit budget => ?_)
    fun limit budget parent σ => ?_
  · exact e.fold_same hl hs mute limit (budget + 1) hself
  · exact Lower.lowerNode_same hl hs limit (budget + 1) hself parent σ

end Indistinct

namespace Tree

variable {t t' t'' : Tree} {x w : NodeId}

/-! ## Layers -/

/-- `w` is `x` with some layers around it, each the only child of the next. -/
inductive Covers (t : Tree) (x : NodeId) : NodeId → Prop
  | self : Covers t x x
  | layer {v w : NodeId} (h : Covers t x v) (hv : (t.tag v).isTransparent = true)
      (hw : t.children w = [v]) : Covers t x w

/-- A layer is skipped, so the form is that of the innermost node. -/
theorem Covers.decode_eq (hl : t.Linked) (h : Covers t x w) :
    Form.decode t w = Form.decode t x := by
  induction h with
  | self => rfl
  | @layer v w _ hv hw ih =>
    have hmem : v ∈ t.children w := by simp [hw]
    have hskip : Form.isSkipped t v [] = true := by
      simpa [Form.isSkipped, Tag.isTransparent] using hv
    rw [Form.decode, if_pos (isNode_of_mem_children hmem)]
    simp only [hw, if_pos hskip, if_pos (hl.lt hmem)]
    exact ih

/-! ## Building -/

/-- A later tree has the same nodes with the same tags and children, and maybe others. -/
structure Grows (t t' : Tree) : Prop where
  isNode {m : NodeId} (h : t.isNode m = true) : t'.isNode m = true
  tag {m : NodeId} (h : t.isNode m = true) : t'.tag m = t.tag m
  children {m : NodeId} (h : t.isNode m = true) : t'.children m = t.children m

theorem Grows.trans (h : Grows t t') (h' : Grows t' t'') : Grows t t'' where
  isNode hm := h'.isNode (h.isNode hm)
  tag hm := (h'.tag (h.isNode hm)).trans (h.tag hm)
  children hm := (h'.children (h.isNode hm)).trans (h.children hm)

theorem Adds.grows {tag : Tag} {symbol : String} {linked : List NodeId}
    (ha : Adds t t' tag symbol linked) (hl : t.Linked) : Grows t t' := by
  have hne {m : NodeId} (hm : t.isNode m = true) : m ≠ t.size + 1 := by
    rintro rfl
    rw [isNode_size_succ] at hm
    cases hm
  exact ⟨fun hm => (ha.isNode (hne hm)).trans hm, fun hm => ha.tag_old (hne hm),
    fun hm => by rw [ha.children hl, if_neg (hne hm)]⟩

private theorem grows_update (t : Tree) (n : NodeId) {f : Node → Node}
    (hf : ∀ y, (f y).tag = y.tag ∧ (f y).child = y.child ∧ (f y).sibling = y.sibling) :
    Grows t (t.update n f) := by
  obtain ⟨-, hchildren⟩ := children_update (t := t) n fun y => (hf y).2
  refine ⟨fun {m} hm => ?_, fun {m} _ => ?_, fun {m} _ => congrFun hchildren m⟩
  · rw [isNode_iff, size_update]
    exact (isNode_iff t m).mp hm
  · rw [Tree.tag, Tree.tag, node?_update]
    split
    · rw [Option.map_map]
      congr 2
      funext y
      exact (hf y).1
    · rfl

theorem Later.grows (hl : Later x t t') (h : t.Built) : Grows t t' := by
  induction hl with
  | refl => exact ⟨fun hm => hm, fun _ => rfl, fun _ => rfl⟩
  | @leaf t' hl tag symbol ih =>
    exact ih.trans ((leaf_adds t' tag symbol).grows (hl.built h).linked)
  | @node t' hl tag children ih =>
    obtain ⟨linked, ha, -⟩ := node_adds (hl.built h).linked tag children
    exact ih.trans (ha.grows (hl.built h).linked)
  | setSymbol _ _ symbol ih => exact ih.trans (grows_update _ _ fun _ => ⟨rfl, rfl, rfl⟩)
  | setLocation _ _ line column ih => exact ih.trans (grows_update _ _ fun _ => ⟨rfl, rfl, rfl⟩)

theorem Later.trans (h : Later x t t') (h' : Later x t' t'') : Later x t t'' := by
  induction h' with
  | refl => exact h
  | leaf _ tag symbol ih => exact ih.leaf tag symbol
  | node _ tag children ih => exact ih.node tag children
  | setSymbol _ hn symbol ih => exact ih.setSymbol hn symbol
  | setLocation _ hn line column ih => exact ih.setLocation hn line column

theorem Covers.grow (h : Covers t x w) (hl : t.Linked) (hg : Grows t t') : Covers t' x w := by
  induction h with
  | self => exact .self
  | @layer v w _ hv hw ih =>
    have hmem : v ∈ t.children w := by simp [hw]
    have hw0 : w ≠ 0 := Nat.ne_zero_of_lt (hl.lt hmem)
    refine .layer ih ?_ ((hg.children (isNode_of_mem_children hmem)).trans hw)
    rw [hg.tag ((hl.mem_children hw0).mp hmem).1]
    exact hv

/-- From tree `t` on, a builder wraps `x` and gets to tree `t'`, where `w` is the outermost layer.
Each layer is a new node, of any tag, over what was made before, which has no parent yet, is
transparent, and is the only one among the candidates that exists.  In between the builder may do
anything that changes no text and no place below `x`. -/
inductive Wraps (x : NodeId) (t : Tree) : Tree → NodeId → Prop
  | none : Wraps x t t x
  | wrap {t' : Tree} {w : NodeId} (h : Wraps x t t' w) (hroot : t'.parent w = 0)
      (hw : (t'.tag w).isTransparent = true) (tag : Tag) (cs : List NodeId)
      (only : cs.filter t'.isNode = [w]) (new : t'.size + 1 ∉ cs) :
      Wraps x t (t'.node tag cs).tree (t'.node tag cs).id
  | later {t' t'' : Tree} {w : NodeId} (h : Wraps x t t' w) (hl : Later x t' t'') :
      Wraps x t t'' w

theorem Wraps.toLater (hw : Wraps x t t' w) : Later x t t' := by
  induction hw with
  | none => exact .refl
  | wrap _ _ _ tag cs _ _ ih => exact ih.node tag cs
  | later _ hl ih => exact ih.trans hl

private theorem node_children_singleton (hl : t.Linked) (hroot : t.parent w = 0) (tag : Tag)
    {cs : List NodeId} (only : cs.filter t.isNode = [w]) (new : t.size + 1 ∉ cs) :
    (t.node tag cs).tree.children (t.node tag cs).id = [w] := by
  have hfault : (t.node tag cs).fault = none := by
    refine (node_fault_eq_none_iff hl tag cs).mpr ⟨by simp [only], fun c hc => ⟨?_, fun hn => ?_⟩⟩
    · rintro rfl
      exact new hc
    · have hmem : c ∈ cs.filter t.isNode := List.mem_filter.mpr ⟨hc, hn⟩
      rw [only, List.mem_singleton] at hmem
      rw [hmem, hroot]
  obtain ⟨linked, ha, hlinked⟩ := node_adds hl tag cs
  obtain ⟨rfl, -⟩ := hlinked hfault
  exact (ha.children hl _).trans ((if_pos rfl).trans only)

theorem Wraps.covers (hw : Wraps x t t' w) (h : t.Built) (hx : t.isNode x = true) :
    t'.isNode w = true ∧ Covers t' x w := by
  induction hw with
  | none => exact ⟨hx, .self⟩
  | @wrap t' w hw hroot htag tag cs only new ih =>
    obtain ⟨hnode, hcovers⟩ := ih
    have hbuilt : t'.Built := hw.toLater.built h
    obtain ⟨linked, ha, -⟩ := node_adds hbuilt.linked tag cs
    have hg := ha.grows hbuilt.linked
    refine ⟨isNode_of_node? ha.new, .layer (hcovers.grow hbuilt.linked hg) ?_ ?_⟩
    · rw [hg.tag hnode]
      exact htag
    · exact node_children_singleton hbuilt.linked hroot tag only new
  | later hw hl ih =>
    obtain ⟨hnode, hcovers⟩ := ih
    have hbuilt := hw.toLater.built h
    have hg := hl.grows hbuilt
    exact ⟨hg.isNode hnode, hcovers.grow hbuilt.linked hg⟩

/-- Wrappers are transparent.  However many layers of whatever mixture of tags are built around a
node, and whatever else is built in between, the outermost layer has the form of the node, and both
engines make the same of it under every limit and with all options, both beside the wrapped node
and beside the node before it was wrapped. -/
theorem wrappers_transparent (h : t.Built) (hx : t.isNode x = true) (hw : Wraps x t t' w) :
    Indistinct t' w t' x ∧ Indistinct t' w t x := by
  have hlater := hw.toLater
  obtain ⟨-, hcovers⟩ := hw.covers h hx
  have hinside : Indistinct t' w t' x := .of_form (hcovers.decode_eq (hlater.built h).linked)
  have hbefore : Indistinct t' x t x := .of_sameBelow h.linked hx (hlater.sameBelow h hx)
  exact ⟨hinside, hinside.trans hbefore⟩

/-- `a + b` at node 6. -/
def sumOfNames : Tree :=
  let t : Tree := ⟨"a.sv", #[]⟩
  let t := ((t.leaf .stringConst "a").2.node .expression [1]).tree
  let t := ((t.leaf .binOpPlus "").2.leaf .stringConst "b").2
  ((t.node .expression [4]).tree.node .constantExpression [2, 3, 5]).tree

/-- The sum in three layers, of which only the outermost has a tag that is not transparent.  Before
that one is built the second gets a place, and another name is added. -/
def wrappedSum : Tree :=
  let t := (sumOfNames.node .constantMintypmaxExpression [6]).tree
  let t := (t.node .constantPrimary [0, 7]).tree
  ((t.setLocation 8 3 1).leaf .stringConst "c").2.node .bitSelect [8] |>.tree

/-- The sum nests two deep, and so does what is wrapped around it. -/
theorem wrappers_transparent_wrappedSum :
    let scope := (Scope.empty.enter.set "a" (.signed 5)).set "b" (.signed 7)
    sumOfNames.Built ∧ sumOfNames.isNode 6 = true ∧ Wraps 6 sumOfNames wrappedSum 10 ∧
      (Evaluator.evaluate { limit := 1 } wrappedSum 10 scope false).value.map (·.isValid) =
        some false ∧
      (Evaluator.evaluate { limit := 2 } wrappedSum 10 scope false).value.map (·.toInt64) =
        some 12 ∧
      Indistinct wrappedSum 10 wrappedSum 6 ∧ Indistinct wrappedSum 10 sumOfNames 6 := by
  have hbuilt : sumOfNames.Built :=
    .node (.node (.leaf (.leaf (.node (.leaf (.empty _) _ _) _ _) _ _) _ _) _ _) _ _
  have hone : Wraps 6 sumOfNames _ 7 :=
    .wrap .none (by decide) (by decide) .constantMintypmaxExpression [6] (by decide) (by decide)
  have htwo : Wraps 6 sumOfNames _ 8 :=
    .wrap hone (by decide) (by decide) .constantPrimary [0, 7] (by decide) (by decide)
  have hwraps : Wraps 6 sumOfNames wrappedSum 10 :=
    .wrap (.later htwo (.leaf (.setLocation .refl (by decide +kernel) 3 1) .stringConst "c"))
      (by decide) (by decide) .bitSelect [8] (by decide) (by decide)
  exact ⟨hbuilt, by decide, hwraps, by decide +kernel, by decide +kernel,
    wrappers_transparent hbuilt (by decide) hwraps⟩

end Tree

end HdlExpr
