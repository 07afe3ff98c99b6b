import HdlExpr.Proofs.Form
import HdlExpr.Proofs.Tree.Outline

/-!
# Readings

The forms of a node and of its operands, all the way down, make up what the node says.  A reading
depends on the outline of the node only, and there is one rule for each way in which a node can be
made up.
-/

namespace HdlExpr

/-- What a node says, with what its operands say in their places. -/
inductive Reading where
  | empty
  | unary (op : Tag) (operand : Reading)
  | binary (left : Reading) (op : Tag) (right : Reading)
  | events (first : Reading) (rest : List (Tag × Reading))
  | literal (tag : Tag) (text : String)
  | name (segments : List String)
  | bit (segments : List String) (index : Reading)
  | part (segments : List String) (left right : Reading)
  | indexed (segments : List String) (base : Reading) (direction : Tag) (width : Reading)
  | lvalue (operand : Reading) (op : Option Tag)
  | call (function : String)
  | concat (tag : Tag) (operands : List Reading)

def Shape.reading (read : NodeId → Reading) : Shape → Reading
  | .empty => .empty
  | .unary op operand => .unary op (read operand)
  | .binary left op right => .binary (read left) op (read right)
  | .events first rest => .events (read first) (rest.map fun item => (item.1, read item.2))
  | .literal tag text => .literal tag text
  | .name ⟨segments, .none⟩ => .name segments
  | .name ⟨segments, .bit index⟩ => .bit segments (read index)
  | .name ⟨segments, .part left right⟩ => .part segments (read left) (read right)
  | .name ⟨segments, .indexed base direction width⟩ =>
    .indexed segments (read base) direction (read width)
  | .lvalue operand op => .lvalue (read operand) op
  | .call function => .call function
  | .concat tag operands => .concat tag (operands.map read)

/-- Decodes a node, then its operands, and so on.  Operands are numbered below the node that they
belong to, which bounds the descent. -/
def Tree.read (t : Tree) (n : NodeId) : Reading :=
  (Form.decode t n).shape.reading fun m => if _h : m < n then read t m else .empty
termination_by n

namespace Form

variable {t : Tree}

theorem mem_subtree_self (h : t.Linked) {n : NodeId} (hn : t.isNode n = true) :
    n ∈ t.subtree n :=
  List.singleton_sublist.mp (singleton_sublist_subtree h hn)

/-- Operands that exist are numbered below the node. -/
theorem operand_lt (h : t.Linked) {n m : NodeId} (hm : m ∈ (decode t n).shape.operands)
    (hn : t.isNode m = true) : m < n := by
  induction n using Nat.strongRecOn with
  | ind n ih =>
    rw [decode] at hm
    split at hm
    case isFalse => simp [Shape.operands] at hm
    case isTrue =>
      split at hm
      case h_1 => simp [(ofLeaf_operands t n).2] at hm
      case h_2 child rest hc =>
        have hlt : child < n := h.lt (by simp [hc])
        split at hm
        · exact Nat.lt_trans (ih child hlt hm) hlt
        · -- The operand is found below a child of the node.
          have hn0 : n ≠ 0 := Nat.ne_zero_of_lt hlt
          have hchild := ((h.mem_children hn0).mp (by simp [hc] : child ∈ t.children n)).1
          obtain ⟨ops, _, hp⟩ := content_subperm h hchild rest
          have hmem : m ∈ (child :: rest).flatMap t.subtree :=
            hp.subset (List.mem_append_right ops
              (List.mem_flatMap.mpr ⟨m, hm, mem_subtree_self h hn⟩))
          obtain ⟨c, hmc, hsub⟩ := List.mem_flatMap.mp hmem
          exact Nat.lt_of_le_of_lt (h.le_of_mem_subtree hsub) (h.lt (hc ▸ hmc))

end Form

theorem Shape.reading_congr {read read' : NodeId → Reading} {shape : Shape}
    (h : ∀ m ∈ shape.operands, read m = read' m) : shape.reading read = shape.reading read' := by
  cases shape with
  | empty | literal | call => rfl
  | unary | lvalue | binary => simp_all [reading, operands]
  | events first rest =>
    simp only [operands, List.mem_cons, List.mem_map, forall_eq_or_imp] at h
    simp only [reading, h.1, Reading.events.injEq, true_and]
    exact List.map_congr_left fun item hi => by rw [h.2 item.2 ⟨item, hi, rfl⟩]
  | name ident =>
    obtain ⟨segments, select⟩ := ident
    cases select <;> simp_all [reading, operands, Select.bounds]
  | concat tag operands => simpa [reading, Shape.operands] using h

namespace Tree

private theorem read_of_not_isNode {t : Tree} {n : NodeId} (h : t.isNode n = false) :
    t.read n = .empty := by
  have hd : (Form.decode t n).shape = .empty := by rw [Form.decode, h]; rfl
  rw [read, hd, Shape.reading]

theorem Linked.read_eq {t : Tree} (h : t.Linked) (n : NodeId) :
    t.read n = (Form.decode t n).shape.reading t.read := by
  rw [read]
  refine Shape.reading_congr fun m hm => ?_
  cases hn : t.isNode m with
  | true => rw [dif_pos (Form.operand_lt h hm hn)]
  | false =>
    rw [read_of_not_isNode hn]
    split <;> rfl

end Tree

/-! ## Rules -/

/-- Every node with this outline has this reading. -/
def Outline.Says (o : Outline) (r : Reading) : Prop :=
  ∀ (t : Tree) (n : NodeId), t.Linked → t.outline n = o → t.read n = r

namespace Tree

private theorem isNode_of_children {t : Tree} {n child : NodeId} {rest : List NodeId}
    (hc : t.children n = child :: rest) : t.isNode n = true := by
  cases hn : t.isNode n with
  | true => rfl
  | false => simp [children_of_not_isNode hn] at hc

namespace Linked

variable {t : Tree} (h : t.Linked)

include h

private theorem tag_eq (n : NodeId) : t.tag n = (t.outline n).tag := by
  rw [h.outline_eq]
  rfl

/-- A node with an outline has its tag, its text, and children with the outlines below it. -/
theorem outline_cases {n : NodeId} {tag : Tag} {symbol : String} {os : List Outline}
    (ho : t.outline n = .node tag symbol os) :
    t.tag n = tag ∧ t.symbol n = symbol ∧ (t.children n).map t.outline = os := by
  rw [h.outline_eq, Outline.node.injEq] at ho
  exact ho

theorem reads {n : NodeId} {o : Outline} {r : Reading} (hs : o.Says r) (ho : t.outline n = o) :
    t.read n = r :=
  hs t n h ho

private theorem map_read {ns : List NodeId} {rs : List Reading}
    (hs : List.Forall₂ Outline.Says (ns.map t.outline) rs) : ns.map t.read = rs := by
  rw [List.forall₂_map_left_iff] at hs
  rw [← List.forall₂_eq_eq_eq, List.forall₂_map_left_iff]
  exact hs.imp fun n r hr => h.reads hr rfl

/-- A node whose content is that of its first child reads as this child. -/
theorem read_skipped {n child : NodeId} {rest : List NodeId} (hc : t.children n = child :: rest)
    (hs : Form.isSkipped t child rest = true) : t.read n = t.read child := by
  have hlt : child < n := h.lt (by simp [hc])
  have hd : Form.decode t n = Form.decode t child := by
    rw [Form.decode, if_pos (isNode_of_children hc)]
    simp only [hc, hs, if_true, if_pos hlt]
  rw [h.read_eq, hd, ← h.read_eq]

private theorem read_content {n child : NodeId} {rest : List NodeId}
    (hc : t.children n = child :: rest) (hs : Form.isSkipped t child rest = false) :
    t.read n = (Form.content t child rest).2.reading t.read := by
  have hd : (Form.decode t n).shape = (Form.content t child rest).2 := by
    rw [Form.decode, if_pos (isNode_of_children hc)]
    simp [hc, hs]
  rw [h.read_eq, hd]

end Linked

end Tree

namespace Outline

variable {tag : Tag} {symbol : String} {r : Reading}

theorem says_skipped {o : Outline} {os : List Outline}
    (hs : (o.tag.isWrapper || (o.tag.isOperandChain && os.isEmpty)) = true) (h : o.Says r) :
    (node tag symbol (o :: os)).Says r := by
  intro t n hl ho
  obtain ⟨_, _, hch⟩ := hl.outline_cases ho
  obtain ⟨child, rest, hc, rfl, rfl⟩ := List.map_eq_cons_iff.mp hch
  have hskip : Form.isSkipped t child rest = true := by
    simpa [Form.isSkipped, hl.tag_eq child] using hs
  rw [hl.read_skipped hc hskip]
  exact hl.reads h rfl

/-- A wrapper reads as what it wraps. -/
theorem says_wrapper {o : Outline} {os : List Outline} (hw : o.tag.isWrapper = true)
    (h : o.Says r) : (node tag symbol (o :: os)).Says r :=
  says_skipped (by simp [hw]) h

private theorem says_content {o : Outline} {os : List Outline}
    (hs : (o.tag.isWrapper || (o.tag.isOperandChain && os.isEmpty)) = false)
    (h : ∀ {t : Tree} {child : NodeId} {rest : List NodeId}, t.Linked → t.outline child = o →
      rest.map t.outline = os → (Form.content t child rest).2.reading t.read = r) :
    (node tag symbol (o :: os)).Says r := by
  intro t n hl ho
  obtain ⟨_, _, hch⟩ := hl.outline_cases ho
  obtain ⟨child, rest, hc, rfl, rfl⟩ := List.map_eq_cons_iff.mp hch
  have hskip : Form.isSkipped t child rest = false := by
    simpa [Form.isSkipped, hl.tag_eq child] using hs
  rw [hl.read_content hc hskip]
  exact h hl rfl rfl

/-- An operand, an operator and another operand. -/
theorem says_binary {left right : Outline} {op : Tag} {text : String} {a b : Reading}
    (hc : left.tag.isOperandChain = true) (ha : left.Says a) (hb : right.Says b) :
    (node tag symbol [left, leaf op text, right]).Says (.binary a op b) := by
  have hw : left.tag.isWrapper = false := by
    revert hc
    cases left.tag <;> simp [Tag.isOperandChain, Tag.isWrapper]
  refine says_content (by simp [hw]) fun {t child rest} hl hchild hrest => ?_
  obtain ⟨p, rest, rfl, hp, hrest⟩ := List.map_eq_cons_iff.mp hrest
  obtain ⟨q, rest, rfl, rfl, hrest⟩ := List.map_eq_cons_iff.mp hrest
  have hchain : (t.tag child).isOperandChain = true := by rw [hl.tag_eq, hchild, hc]
  have hop : t.tag p = op := (hl.outline_cases hp).1
  simp [Form.content, hchain, Form.nth, Shape.reading, hop, hl.reads ha hchild, hl.reads hb rfl]

/-- An operator before its operand. -/
theorem says_unary {operand : Outline} {op : Tag} {text : String} {a : Reading}
    (hop : op.unaryOp?.isSome = true) (ha : operand.Says a) :
    (node tag symbol [leaf op text, operand]).Says (.unary op a) := by
  have hrole : op.isWrapper = false ∧ op.isOperandChain = false := by
    revert hop
    cases op <;> simp [Tag.unaryOp?, Tag.isWrapper, Tag.isOperandChain]
  refine says_content (by simp [leaf, Outline.tag, hrole]) fun {t child rest} hl hchild hrest => ?_
  obtain ⟨p, rest, rfl, rfl, hrest⟩ := List.map_eq_cons_iff.mp hrest
  have htag : t.tag child = op := (hl.outline_cases hchild).1
  simp [Form.content, htag, hrole, hop, Form.nth, Shape.reading, hl.reads ha rfl]

theorem says_literal {literal : Tag} {text : String} (hlit : literal.isLiteral = true) :
    (node tag symbol [leaf literal text]).Says (.literal literal text) := by
  have hrole : literal.isWrapper = false ∧ literal.isOperandChain = false ∧
      literal.unaryOp?.isSome = false := by
    revert hlit
    cases literal <;>
      simp [Tag.isLiteral, Tag.scalarBit?, Tag.isWrapper, Tag.isOperandChain, Tag.unaryOp?]
  refine says_content (by simp [leaf, Outline.tag, hrole]) fun {t child rest} hl hchild hrest => ?_
  obtain ⟨htag, htext, _⟩ := hl.outline_cases hchild
  simp [Form.content, htag, htext, hrole, hlit, Shape.reading]

/-- An assignable operand with a step behind it. -/
theorem says_step {text : String} {os : List Outline} {op : Tag} {optext : String} {a : Reading}
    (hop : op.postOp?.isSome = true) (ha : (node .variableLvalue text os).Says a) :
    (node tag symbol [node .variableLvalue text os, leaf op optext]).Says
      (.lvalue a (some op)) := by
  refine says_content rfl fun {t child rest} hl hchild hrest => ?_
  obtain ⟨p, rest, rfl, hp, hrest⟩ := List.map_eq_cons_iff.mp hrest
  have htag : t.tag child = .variableLvalue := (hl.outline_cases hchild).1
  have hoptag : t.tag p = op := (hl.outline_cases hp).1
  simp [Form.content, htag, hoptag, hop, Form.nth, Shape.reading, hl.reads ha hchild,
    Tag.isOperandChain, Tag.unaryOp?, Tag.isLiteral, Tag.scalarBit?]

theorem says_call {text name : String} {nametag : Tag} :
    (node tag symbol [node .systemTaskNames text [leaf nametag name]]).Says (.call name) := by
  refine says_content rfl fun {t child rest} hl hchild hrest => ?_
  obtain ⟨htag, _, hch⟩ := hl.outline_cases hchild
  obtain ⟨p, rest, hc, hp, _⟩ := List.map_eq_cons_iff.mp hch
  have hname : t.symbol p = name := (hl.outline_cases hp).2.1
  simp [Form.content, htag, hl.child_eq, hc, hname, Shape.reading, Tag.isOperandChain,
    Tag.unaryOp?, Tag.isLiteral, Tag.scalarBit?]

theorem says_concat {cat : Tag} (hcat : cat = .concatenation ∨ cat = .multipleConcatenation)
    {text : String} {os : List Outline} {rs : List Reading} (h : List.Forall₂ Says os rs) :
    (node tag symbol [node cat text os]).Says (.concat cat rs) := by
  refine says_content (by rcases hcat with rfl | rfl <;> rfl)
    fun {t child rest} hl hchild hrest => ?_
  obtain ⟨htag, _, rfl⟩ := hl.outline_cases hchild
  have hr := hl.map_read h
  rcases hcat with rfl | rfl <;>
    simp [Form.content, htag, Shape.reading, hr, Tag.isOperandChain, Tag.unaryOp?, Tag.isLiteral,
      Tag.scalarBit?]

/-! ### Names -/

private theorem segments_names {t : Tree} (hl : t.Linked) {ns : List NodeId} {more : List String}
    (h : ns.map t.outline = more.map (leaf .stringConst)) :
    Form.segments t ns = (more, .none) := by
  induction ns generalizing more with
  | nil =>
    obtain rfl : more = [] := by simpa using h.symm
    rfl
  | cons n ns ih =>
    cases more with
    | nil => simp at h
    | cons s more =>
      rw [List.map_cons, List.map_cons, List.cons.injEq] at h
      obtain ⟨htag, htext, _⟩ := hl.outline_cases h.1
      simp [Form.segments, htag, htext, ih h.2]

private theorem content_name {t : Tree} (hl : t.Linked) {child : NodeId} {first : String}
    (h : t.outline child = leaf .stringConst first) (rest : List NodeId) :
    (Form.content t child rest).2 =
      .name ⟨first :: (Form.segments t rest).1, (Form.segments t rest).2⟩ := by
  obtain ⟨htag, htext, _⟩ := hl.outline_cases h
  simp [Form.content, Form.ident, htag, htext, Tag.isOperandChain, Tag.unaryOp?, Tag.isLiteral,
    Tag.scalarBit?]

theorem says_name (first : String) (more : List String) :
    (node tag symbol ((first :: more).map (leaf .stringConst))).Says (.name (first :: more)) := by
  refine says_content rfl fun {t child rest} hl hchild hrest => ?_
  rw [content_name hl hchild, segments_names hl hrest, Shape.reading]

/-- A name with a select behind it; the rules below say which select a node stands for. -/
theorem says_selected (name : String) {select : Outline} (htag : select.tag = .select)
    (h : ∀ (t : Tree) (n : NodeId), t.Linked → t.outline n = select →
      ∃ found, Form.select? t n = some found ∧
        (Shape.name ⟨[name], found⟩).reading t.read = r) :
    (node tag symbol [leaf .stringConst name, select]).Says r := by
  refine says_content rfl fun {t child rest} hl hchild hrest => ?_
  obtain ⟨n, more, rfl, rfl, hmore⟩ := List.map_eq_cons_iff.mp hrest
  obtain rfl := List.map_eq_nil_iff.mp hmore
  obtain ⟨found, hf, hr⟩ := h t n hl rfl
  rw [← hl.tag_eq n] at htag
  rw [content_name hl hchild, ← hr]
  simp [Form.segments, htag, hf]

section Selects

variable {t : Tree} (hl : t.Linked) {n : NodeId}

include hl

private theorem children_one {text : String} {o : Outline} (h : t.outline n = node tag text [o]) :
    ∃ c, t.children n = [c] ∧ t.outline c = o := by
  obtain ⟨_, _, hch⟩ := hl.outline_cases h
  obtain ⟨c, rest, hc, ho, hrest⟩ := List.map_eq_cons_iff.mp hch
  obtain rfl := List.map_eq_nil_iff.mp hrest
  exact ⟨c, hc, ho⟩

private theorem children_two {text : String} {o o' : Outline}
    (h : t.outline n = node tag text [o, o']) :
    ∃ c c', t.children n = [c, c'] ∧ t.outline c = o ∧ t.outline c' = o' := by
  obtain ⟨_, _, hch⟩ := hl.outline_cases h
  obtain ⟨c, rest, hc, ho, hrest⟩ := List.map_eq_cons_iff.mp hch
  obtain ⟨c', rest', rfl, ho', hrest⟩ := List.map_eq_cons_iff.mp hrest
  obtain rfl := List.map_eq_nil_iff.mp hrest
  exact ⟨c, c', hc, ho, ho'⟩

private theorem clause?_part {text text' : String} {left right : Outline}
    (h : t.outline n = node .partSelectRange text [node .constantRange text' [left, right]]) :
    ∃ l r, Form.clause? t n = some (.part l r) ∧ t.outline l = left ∧ t.outline r = right := by
  have htag : t.tag n = .partSelectRange := (hl.outline_cases h).1
  obtain ⟨range, hc, hr⟩ := children_one hl h
  have hrtag : t.tag range = .constantRange := (hl.outline_cases hr).1
  obtain ⟨l, r, hb, ho, ho'⟩ := children_two hl hr
  refine ⟨l, r, ?_, ho, ho'⟩
  simp [Form.clause?, htag, hl.child_eq, hc, hrtag, hb, Form.nth]

private theorem clause?_indexed {text text' text'' : String} {base width : Outline}
    {direction : Tag} (h : t.outline n = node .partSelectRange text
      [node .constantIndexedRange text' [base, leaf direction text'', width]]) :
    ∃ b w, Form.clause? t n = some (.indexed b direction w) ∧
      t.outline b = base ∧ t.outline w = width := by
  have htag : t.tag n = .partSelectRange := (hl.outline_cases h).1
  obtain ⟨range, hc, hr⟩ := children_one hl h
  obtain ⟨hrtag, _, hch⟩ := hl.outline_cases hr
  obtain ⟨b, rest, hb, ho, hrest⟩ := List.map_eq_cons_iff.mp hch
  obtain ⟨d, rest, rfl, hd, hrest⟩ := List.map_eq_cons_iff.mp hrest
  obtain ⟨w, rest, rfl, ho', hrest⟩ := List.map_eq_cons_iff.mp hrest
  have hdtag : t.tag d = direction := (hl.outline_cases hd).1
  refine ⟨b, w, ?_, ho, ho'⟩
  simp [Form.clause?, htag, hl.child_eq, hc, hrtag, hb, Form.nth, hdtag]

end Selects

theorem says_bit (name : String) {text text' : String} {index : Outline} {a : Reading}
    (ha : index.Says a) :
    (node tag symbol [leaf .stringConst name,
      node .select text [node .bitSelect text' [index]]]).Says (.bit [name] a) := by
  refine says_selected name rfl fun t n hl hn => ?_
  obtain ⟨b, hc, hb⟩ := children_one hl hn
  have hbtag : t.tag b = .bitSelect := (hl.outline_cases hb).1
  obtain ⟨i, hbc, hi⟩ := children_one hl hb
  refine ⟨.bit i, ?_, by rw [Shape.reading, hl.reads ha hi]⟩
  simp [Form.select?, hc, Form.clause?, hbtag, hbc]

/-- A part select comes behind a bit select without an index, which does not count. -/
theorem says_part (name : String) {text text₁ text₂ text₃ : String} {left right : Outline}
    {a b : Reading} (ha : left.Says a) (hb : right.Says b) :
    (node tag symbol [leaf .stringConst name,
      node .select text [leaf .bitSelect text₁,
        node .partSelectRange text₂ [node .constantRange text₃ [left, right]]]]).Says
      (.part [name] a b) := by
  refine says_selected name rfl fun t n hl hn => ?_
  obtain ⟨c, p, hc, hbit, hp⟩ := children_two hl hn
  obtain ⟨hctag, _, hcc⟩ := hl.outline_cases hbit
  rw [List.map_eq_nil_iff] at hcc
  obtain ⟨l, r, hclause, ho, ho'⟩ := clause?_part hl hp
  refine ⟨.part l r, ?_, by rw [Shape.reading, hl.reads ha ho, hl.reads hb ho']⟩
  have hnone : Form.clause? t c = none := by simp [Form.clause?, hctag, hcc]
  simp [Form.select?, hc, hnone, hclause]

theorem says_indexed (name : String) {text text₁ text₂ text₃ : String} {base width : Outline}
    {direction : Tag} {a b : Reading} (ha : base.Says a) (hb : width.Says b) :
    (node tag symbol [leaf .stringConst name,
      node .select text [node .partSelectRange text₁
        [node .constantIndexedRange text₂ [base, leaf direction text₃, width]]]]).Says
      (.indexed [name] a direction b) := by
  refine says_selected name rfl fun t n hl hn => ?_
  obtain ⟨p, hc, hp⟩ := children_one hl hn
  obtain ⟨l, r, hclause, ho, ho'⟩ := clause?_indexed hl hp
  refine ⟨.indexed l direction r, ?_, by rw [Shape.reading, hl.reads ha ho, hl.reads hb ho']⟩
  simp [Form.select?, hc, hclause]

/-! ### Events -/

def inTurn (items : List (Tag × Outline)) : List Outline :=
  items.flatMap fun item => [leaf item.1 "", item.2]

private theorem eventList_inTurn {t : Tree} (hl : t.Linked) {ns : List NodeId}
    {items : List (Tag × Outline)} (hop : ∀ item ∈ items, item.1.combinator?.isSome = true)
    (h : ns.map t.outline = inTurn items) :
    (Form.eventList t ns).map (fun item => (item.1, t.outline item.2)) = items := by
  induction items generalizing ns with
  | nil =>
    obtain rfl := List.map_eq_nil_iff.mp h
    rfl
  | cons item items ih =>
    obtain ⟨p, rest, rfl, hp, hrest⟩ := List.map_eq_cons_iff.mp h
    obtain ⟨q, rest, rfl, hq, hrest⟩ := List.map_eq_cons_iff.mp hrest
    have htag : t.tag p = item.1 := (hl.outline_cases hp).1
    have hcomb := hop item List.mem_cons_self
    rw [← htag] at hcomb
    rw [Form.eventList, if_pos hcomb, List.map_cons, hq, htag,
      ih (fun other hm => hop other (List.mem_cons_of_mem item hm)) hrest]

theorem says_events {text : String} {os : List Outline} {items : List (Tag × Outline)}
    {a : Reading} {rs : List (Tag × Reading)}
    (hop : ∀ item ∈ items, item.1.combinator?.isSome = true)
    (ha : (node .eventExpression text os).Says a)
    (hs : List.Forall₂ (fun item r => item.1 = r.1 ∧ item.2.Says r.2) items rs) :
    (node tag symbol (node .eventExpression text os :: inTurn items)).Says (.events a rs) := by
  refine says_content rfl fun {t child rest} hl hchild hrest => ?_
  have hitems := eventList_inTurn hl hop hrest
  have htag : t.tag child = .eventExpression := (hl.outline_cases hchild).1
  have hcontent : (Form.content t child rest).2 = .events child (Form.eventList t rest) := by
    simp [Form.content, htag, Tag.isOperandChain, Tag.unaryOp?, Tag.isLiteral, Tag.scalarBit?]
  rw [hcontent, Shape.reading, hl.reads ha hchild, Reading.events.injEq]
  refine ⟨rfl, ?_⟩
  rw [← hitems, List.forall₂_map_left_iff] at hs
  rw [← List.forall₂_eq_eq_eq, List.forall₂_map_left_iff]
  exact hs.imp fun item r hr => by rw [hl.reads hr.2 rfl, hr.1]

end Outline

end HdlExpr
