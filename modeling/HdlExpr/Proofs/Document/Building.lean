import HdlExpr.Document.Basic
import HdlExpr.Proofs.Below

/-!
# Building documents

The trees of a document say what its source says.  Nodes are added children first, so that the nodes
of an expression are a block of numbers that ends at the expression, and the blocks follow each
other in the order of the source.
-/

namespace HdlExpr

/-- What a tree says of a node, its number apart, and the same of everything below it. -/
inductive Transcript where
  | node (tag : Tag) (symbol : String) (line column : Int) (children : List Transcript)

namespace Tree

variable {t t' t'' : Tree} {α : Type}

/-! ## From the leaves up -/

/-- Puts together what is known of a node and what was put together for its children. -/
def gather (t : Tree) (f : NodeId → List α → α) (n : NodeId) : α :=
  f n ((t.children n).map fun c => if _h : c < n then gather t f c else f c [])
termination_by n

theorem Linked.gather_eq (h : t.Linked) (f : NodeId → List α → α) (n : NodeId) :
    t.gather f n = f n ((t.children n).map (t.gather f)) := by
  rw [gather]
  congr 1
  apply List.map_congr_left
  intro c hc
  rw [dif_pos (h.lt hc)]

/-- The node and all nodes below it, children first. -/
def postorder (t : Tree) : NodeId → List NodeId :=
  t.gather fun n parts => parts.flatten ++ [n]

def transcript (t : Tree) : NodeId → Transcript :=
  t.gather fun n parts =>
    .node (t.tag n) (t.symbol n) (t.location n).line (t.location n).column parts

theorem Linked.postorder_eq (h : t.Linked) (n : NodeId) :
    t.postorder n = (t.children n).flatMap t.postorder ++ [n] := by
  rw [postorder, h.gather_eq, List.flatMap_def]

theorem Linked.transcript_eq (h : t.Linked) (n : NodeId) :
    t.transcript n = .node (t.tag n) (t.symbol n) (t.location n).line (t.location n).column
      ((t.children n).map t.transcript) := by
  rw [transcript, h.gather_eq]

/-! ## Trees that grow -/

/-- Every node of a tree is as it was, its parent and its sibling apart. -/
def Keeps (t t' : Tree) : Prop := ∀ m, t.isNode m = true → SameAt t t' m

namespace Keeps

private theorem refl (t : Tree) : Keeps t t := fun _ _ => ⟨rfl, rfl, rfl, rfl, rfl, rfl⟩

private theorem isNode (h : Keeps t t') {m : NodeId} (hm : t.isNode m = true) :
    t'.isNode m = true :=
  (h m hm).isNode.trans hm

private theorem trans (h : Keeps t t') (h' : Keeps t' t'') : Keeps t t'' := by
  intro m hm
  exact (h m hm).trans (h' m (h.isNode hm))

/-- A change of the text or the place of a node that came later does not count. -/
theorem update (h : Keeps t t') (hl : t'.Linked) {n : NodeId} (hn : t.size < n)
    {f : Node → Node} (hf : ∀ y, (f y).child = y.child ∧ (f y).sibling = y.sibling) :
    Keeps t (t'.update n f) := by
  intro m hm
  have hle : m ≤ t.size := ((isNode_iff t m).mp hm).2
  have hnot : n ∉ t'.subtree m := by
    intro hmem
    exact Nat.not_le.mpr (Nat.lt_of_le_of_lt hle hn) (hl.le_of_mem_subtree hmem)
  exact (h m hm).trans (sameBelow_update hnot hf m (below_self hl (h.isNode hm)))

private theorem gather (h : Keeps t t') (hl : t.Linked) (hl' : t'.Linked)
    {f g : NodeId → List α → α}
    (hfg : ∀ m, t.isNode m = true → g m = f m) {m : NodeId} (hm : t.isNode m = true) :
    t'.gather g m = t.gather f m := by
  induction m using Nat.strongRecOn with
  | ind m ih =>
    rw [hl'.gather_eq, hl.gather_eq, hfg m hm, (h m hm).children]
    congr 1
    apply List.map_congr_left
    intro c hc
    have hm0 : m ≠ 0 := ((isNode_iff t m).mp hm).1
    exact ih c (hl.lt hc) ((hl.mem_children hm0).mp hc).1

private theorem postorder (h : Keeps t t') (hl : t.Linked) (hl' : t'.Linked) {m : NodeId}
    (hm : t.isNode m = true) : t'.postorder m = t.postorder m :=
  h.gather hl hl' (fun _ _ => rfl) hm

private theorem transcript (h : Keeps t t') (hl : t.Linked) (hl' : t'.Linked) {m : NodeId}
    (hm : t.isNode m = true) : t'.transcript m = t.transcript m := by
  refine h.gather hl hl' ?_ hm
  intro k hk
  rw [(h k hk).tag, (h k hk).symbol, (h k hk).location]

end Keeps

theorem Adds.keeps {tag : Tag} {symbol : String} {linked : List NodeId}
    (ha : Adds t t' tag symbol linked) (h : t.Linked) (hfile : t'.file = t.file) :
    Keeps t t' := by
  intro m hm
  exact ha.sameBelow h hfile hm m (below_self h hm)

private theorem ids_eq (t : Tree) : t.ids = List.range' 1 t.size := by
  rw [ids, List.range'_eq_map_range]
  apply List.map_congr_left
  intro i _
  exact Nat.add_comm i 1

private theorem ids_succ (h : t'.size = t.size + 1) : t'.ids = t.ids ++ [t.size + 1] := by
  rw [ids, ids, h, List.range_succ, List.map_append]
  rfl

/-- A new node is a root, and the nodes that it takes no longer are. -/
theorem Adds.roots {tag : Tag} {symbol : String} {linked : List NodeId}
    (ha : Adds t t' tag symbol linked) :
    t'.roots = t.roots.filter (· ∉ linked) ++ [t.size + 1] := by
  rw [Tree.roots, Tree.roots, ids_succ ha.size, List.filter_append, List.filter_filter]
  congr 1
  · apply List.filter_congr
    intro m hm
    have hle : m ≤ t.size := ((isNode_iff t m).mp ((mem_ids t m).mp hm)).2
    have hne : m ≠ t.size + 1 := Nat.ne_of_lt (Nat.lt_succ_of_le hle)
    rw [ha.parent, if_neg hne]
    by_cases hl : m ∈ linked <;> simp [hl]
  · simp [ha.parent]

private theorem update_id (t : Tree) (n : NodeId) : t.update n id = t := by
  cases n with
  | zero => rfl
  | succ i =>
    have hnodes : t.nodes.modify i id = t.nodes := by
      apply Array.ext_getElem?
      intro j
      rw [Array.getElem?_modify]
      split <;> simp
    rw [update, hnodes]

private theorem roots_update (t : Tree) (n : NodeId) {f : Node → Node}
    (hf : ∀ y, (f y).parent = y.parent) : (t.update n f).roots = t.roots := by
  have hparent (m : NodeId) : (t.update n f).parent m = t.parent m := by
    rw [parent, parent, node?_update]
    split
    · rw [Option.map_map]
      congr 2
      funext y
      exact hf y
    · rfl
  rw [roots, roots, ids, ids, size_update]
  simp only [hparent]

end Tree

namespace Document

open HdlExpr.Tree

/-! ## What sources say -/

namespace Source

mutual

/-- The node and all nodes below it, parents first. -/
def Node.all : Node → List Node
  | ⟨tag, symbol, line, column, children⟩ =>
    ⟨tag, symbol, line, column, children⟩ :: Node.allOf children

def Node.allOf : List Node → List Node
  | [] => []
  | n :: rest => n.all ++ Node.allOf rest

end

mutual

/-- What a tree of the node says: tags for their spellings, and places in 32 bits.  There is none
with an unknown tag. -/
def Node.transcript? : Node → Option Transcript
  | ⟨tag, symbol, line, column, children⟩ =>
    match Tag.ofSpelling? tag, Node.transcripts? children with
    | some tag, some children =>
      some (.node tag symbol (line.bmod 4294967296) (column.bmod 4294967296) children)
    | _, _ => none

def Node.transcripts? : List Node → Option (List Transcript)
  | [] => some []
  | n :: rest =>
    match n.transcript?, Node.transcripts? rest with
    | some n, some rest => some (n :: rest)
    | _, _ => none

end

def names (es : List Expression) : List String := es.mapIdx expressionName

private theorem names_concat (es : List Expression) (e : Expression) :
    names (es ++ [e]) = names es ++ [expressionName es.length e] :=
  List.mapIdx_concat

private theorem take_names (es fs : List Expression) :
    (names (es ++ fs)).take es.length = names es := by
  rw [names, List.mapIdx_append]
  exact List.take_left' List.length_mapIdx

/-- The faults for nodes of an expression whose tags are not known. -/
def tagFaults (name : String) (ns : List Node) : List Fault :=
  (ns.filter fun n => (Tag.ofSpelling? n.tag).isNone).map fun n => .unknownTag n.tag n.line name

/-- What is wrong with an expression after others: its name, then its root, then the tags in it. -/
def Expression.faults (earlier : List String) (name : String) (e : Expression) : List Fault :=
  (if name ∈ earlier then [.duplicateName name] else []) ++
    match e.root with
    | none => [.noRoot name]
    | some root => tagFaults name root.all

/-- What is wrong with the expressions of a source, in their order. -/
def faults (s : Source) : List Fault :=
  s.expressions.zipIdx.flatMap fun p =>
    p.1.faults ((names s.expressions).take p.2) (expressionName p.2 p.1)

def nodes (es : List Expression) : List Node := es.flatMap fun e => Node.allOf e.root.toList

theorem Node.all_eq (n : Node) : n.all = n :: Node.allOf n.children := by
  cases n
  rfl

theorem Node.transcript?_eq (n : Node) :
    n.transcript? = match Tag.ofSpelling? n.tag, Node.transcripts? n.children with
      | some tag, some children =>
        some (.node tag n.symbol (n.line.bmod 4294967296) (n.column.bmod 4294967296) children)
      | _, _ => none := by
  cases n
  rfl

@[simp] theorem Node.allOf_append (ns ms : List Node) :
    Node.allOf (ns ++ ms) = Node.allOf ns ++ Node.allOf ms := by
  induction ns with
  | nil => rfl
  | cons n ns ih => rw [List.cons_append, allOf, ih, allOf, List.append_assoc]

private theorem nodes_eq {es : List Expression} {ns : List Node}
    (h : es.map (·.root) = ns.map some) : nodes es = Node.allOf ns := by
  induction es generalizing ns with
  | nil =>
    obtain rfl : ns = [] := by simpa using h.symm
    rfl
  | cons e es ih =>
    cases ns with
    | nil => simp at h
    | cons n ns =>
      rw [List.map_cons, List.map_cons, List.cons.injEq] at h
      rw [nodes, List.flatMap_cons, h.1]
      change Node.allOf ([n] ++ []) ++ nodes es = Node.allOf ([n] ++ ns)
      rw [Node.allOf_append, Node.allOf_append, ih h.2, Node.allOf, List.append_nil]

private theorem tagFaults_cons (name : String) (n : Node) (ns : List Node) :
    tagFaults name (n :: ns) = match Tag.ofSpelling? n.tag with
      | none => .unknownTag n.tag n.line name :: tagFaults name ns
      | some _ => tagFaults name ns := by
  rw [tagFaults, List.filter_cons]
  cases Tag.ofSpelling? n.tag <;> rfl

@[simp] private theorem tagFaults_append (name : String) (ns ms : List Node) :
    tagFaults name (ns ++ ms) = tagFaults name ns ++ tagFaults name ms := by
  rw [tagFaults, List.filter_append, List.map_append]
  rfl

end Source

/-! ## Nodes -/

/-- A tree says at a node what a source says, and the nodes of this source node are the last ones up
to this node. -/
structure Shows (t : Tree) (n : Source.Node) (id : NodeId) : Prop where
  isNode : t.isNode id = true
  transcript : n.transcript? = some (t.transcript id)
  block : t.postorder id = List.range' (id + 1 - n.all.length) n.all.length

theorem Shows.keep {t t' : Tree} {n : Source.Node} {id : NodeId} (h : Shows t n id)
    (hk : Keeps t t') (hl : t.Linked) (hl' : t'.Linked) : Shows t' n id where
  isNode := hk.isNode h.isNode
  transcript := by rw [hk.transcript hl hl' h.isNode, h.transcript]
  block := by rw [hk.postorder hl hl' h.isNode, h.block]

private theorem transcripts?_eq {t : Tree} {ns : List Source.Node} {ids : List NodeId}
    (h : List.Forall₂ (Shows t) ns ids) :
    Source.Node.transcripts? ns = some (ids.map t.transcript) := by
  induction h with
  | nil => rfl
  | cons hs _ ih => rw [Source.Node.transcripts?, hs.transcript, ih, List.map_cons]

/-- The tree `t'` comes from `t` by adding the source nodes `ns` as the roots `ids`. -/
structure Plants (ns : List Source.Node) (t : Tree) (ids : List NodeId) (t' : Tree) : Prop where
  linked : t'.Linked
  file : t'.file = t.file
  keeps : Keeps t t'
  size : t'.size = t.size + (Source.Node.allOf ns).length
  roots : t'.roots = t.roots ++ ids
  postorder : ids.flatMap t'.postorder = List.range' (t.size + 1) (Source.Node.allOf ns).length
  shows : List.Forall₂ (Shows t') ns ids

namespace Plants

variable {ns ms : List Source.Node} {t t' t'' : Tree} {ids js : List NodeId}

private theorem nil (h : t.Linked) : Plants [] t [] t where
  linked := h
  file := rfl
  keeps := .refl t
  size := rfl
  roots := (List.append_nil _).symm
  postorder := rfl
  shows := .nil

private theorem isRoot (h : Plants ns t ids t') {m : NodeId} (hm : m ∈ ids) :
    t'.isNode m = true ∧ t'.parent m = 0 := by
  rw [← mem_roots, h.roots]
  exact List.mem_append_right t.roots hm

private theorem append (h : Plants ns t ids t') (h' : Plants ms t' js t'') :
    Plants (ns ++ ms) t (ids ++ js) t'' where
  linked := h'.linked
  file := h'.file.trans h.file
  keeps := h.keeps.trans h'.keeps
  size := by
    rw [h'.size, h.size, Source.Node.allOf_append, List.length_append, Nat.add_assoc]
  roots := by rw [h'.roots, h.roots, List.append_assoc]
  postorder := by
    have hids : ids.flatMap t''.postorder = ids.flatMap t'.postorder := by
      apply List.flatMap_congr
      intro m hm
      exact h'.keeps.postorder h.linked h'.linked (h.isRoot hm).1
    rw [List.flatMap_append, hids, h.postorder, h'.postorder, h.size, Source.Node.allOf_append,
      List.length_append, ← List.range'_append_1]
    congr 2
    omega
  shows := by
    refine List.rel_append ?_ h'.shows
    exact h.shows.imp fun n m hs => hs.keep h'.keeps h.linked h'.linked

/-- Roots that were planted can be linked under a new node. -/
theorem fault_eq_none (h : Plants ns t ids t') (tag : Tag) : (t'.node tag ids).fault = none := by
  have hd := (roots_sorted t').imp Nat.ne_of_lt
  rw [h.roots, List.pairwise_append] at hd
  refine (node_fault_eq_none_iff h.linked tag ids).mpr ⟨hd.2.1.filter _, ?_⟩
  intro c hc
  refine ⟨?_, fun _ => (h.isRoot hc).2⟩
  rintro rfl
  have hn := (h.isRoot hc).1
  rw [isNode_size_succ] at hn
  cases hn

private theorem node_eq (h : Plants ns t ids t') (tag : Tag) :
    t'.node tag ids = ⟨t'.size + 1, (t'.node tag ids).tree, none⟩ :=
  congrArg (Added.mk (t'.size + 1) (t'.node tag ids).tree) (h.fault_eq_none tag)

private theorem adds (h : Plants ns t ids t') (tag : Tag) :
    Adds t' (t'.node tag ids).tree tag "" ids := by
  obtain ⟨linked, ha, hf⟩ := node_adds h.linked tag ids
  obtain ⟨rfl, -⟩ := hf (h.fault_eq_none tag)
  have hall : ids.filter t'.isNode = ids :=
    List.filter_eq_self.mpr fun c hc => (h.isRoot hc).1
  rw [hall] at ha
  exact ha

end Plants

/-- A place in the source, kept to 32 bits; a missing one is not written. -/
def place (line column : Int) (x : Tree.Node) : Tree.Node :=
  if line ≠ 0 ∨ column ≠ 0 then
    { x with line := line.bmod 4294967296, column := column.bmod 4294967296 }
  else x

private theorem update_place (t : Tree) (n : NodeId) (line column : Int) :
    (if line ≠ 0 ∨ column ≠ 0 then t.setLocation n line column else t) =
      t.update n (place line column) := by
  by_cases h : line ≠ 0 ∨ column ≠ 0
  · have hp : place line column = fun x =>
        { x with line := line.bmod 4294967296, column := column.bmod 4294967296 } := by
      funext x
      exact if_pos h
    rw [if_pos h, hp]
    rfl
  · have hp : place line column = id := by
      funext x
      exact if_neg h
    rw [if_neg h, hp, update_id]

private theorem place_links (line column : Int) (x : Tree.Node) :
    (place line column x).tag = x.tag ∧ (place line column x).symbol = x.symbol ∧
      ((place line column x).child, (place line column x).sibling, (place line column x).parent) =
        (x.child, x.sibling, x.parent) := by
  unfold place
  split <;> exact ⟨rfl, rfl, rfl⟩

/-- A node without a place has the given one afterwards, also if that is missing. -/
theorem place_eq (line column : Int) {x : Tree.Node} (hl : x.line = 0) (hc : x.column = 0) :
    (place line column x).line = line.bmod 4294967296 ∧
      (place line column x).column = column.bmod 4294967296 := by
  unfold place
  split
  case isTrue => exact ⟨rfl, rfl⟩
  case isFalse h =>
    simp only [ne_eq, not_or, not_not] at h
    rw [hl, hc, h.1, h.2]
    exact ⟨rfl, rfl⟩

/-- The tree after a node was added on top of roots that were planted, with its text and place. -/
def top (t : Tree) (n : Source.Node) (tag : Tag) (ids : List NodeId) : Tree :=
  ((t.node tag ids).tree.update (t.size + 1) fun x => { x with symbol := n.symbol }).update
    (t.size + 1) (place n.line n.column)

section Top

variable {n : Source.Node} {t t' : Tree} {ids : List NodeId} {tag : Tag}
  (h : Plants n.children t ids t')

include h

private theorem top_linked : (top t' n tag ids).Linked := by
  have hl := h.linked.add (h.adds tag)
  refine (hl.update _ _ ?_).update _ _ ?_
  · intro x
    rfl
  · intro x
    exact (place_links n.line n.column x).2.2

@[simp] private theorem top_size : (top t' n tag ids).size = t'.size + 1 := by
  rw [top, size_update, size_update, (h.adds tag).size]

private theorem top_children (m : NodeId) :
    (top t' n tag ids).children m = if m = t'.size + 1 then ids else t'.children m := by
  rw [top, (children_update _ ?_).2, (children_update _ ?_).2]
  · exact (h.adds tag).children h.linked m
  · intro y
    exact ⟨rfl, rfl⟩
  · intro y
    have hy := (place_links n.line n.column y).2.2
    simp only [Prod.mk.injEq] at hy
    exact ⟨hy.1, hy.2.1⟩

private theorem top_node? : (top t' n tag ids).node? (t'.size + 1) =
    some (place n.line n.column { tag, symbol := n.symbol, child := ids.headD 0 }) := by
  rw [top, node?_update, if_pos rfl, node?_update, if_pos rfl, (h.adds tag).new]
  rfl

private theorem top_keeps : Keeps t' (top t' n tag ids) := by
  have ha := h.adds tag
  have hl := h.linked.add ha
  have hlt : t'.size < t'.size + 1 := Nat.lt_succ_self _
  have hadd := ha.keeps h.linked (file_node t' tag ids)
  have hsymbol := hadd.update hl hlt (f := fun x => { x with symbol := n.symbol })
    fun y => ⟨rfl, rfl⟩
  refine hsymbol.update (hl.update _ _ fun _ => rfl) hlt ?_
  intro y
  have hy := (place_links n.line n.column y).2.2
  simp only [Prod.mk.injEq] at hy
  exact ⟨hy.1, hy.2.1⟩

private theorem top_roots : (top t' n tag ids).roots = t.roots ++ [t'.size + 1] := by
  rw [top, roots_update _ _ ?_, roots_update _ _ ?_, (h.adds tag).roots, h.roots,
    List.filter_append]
  · have hd := (roots_sorted t').imp Nat.ne_of_lt
    rw [h.roots, List.pairwise_append] at hd
    have hold : t.roots.filter (· ∉ ids) = t.roots := by
      apply List.filter_eq_self.mpr
      intro m hm
      have hnot : m ∉ ids := fun hmem => hd.2.2 m hm m hmem rfl
      simpa using hnot
    have hnew : ids.filter (· ∉ ids) = [] := by
      apply List.filter_eq_nil_iff.mpr
      intro m hm
      simpa using hm
    rw [hold, hnew, List.append_nil]
  · intro y
    rfl
  · intro y
    have hy := (place_links n.line n.column y).2.2
    simp only [Prod.mk.injEq] at hy
    exact hy.2.2

private theorem top_postorder :
    (top t' n tag ids).postorder (t'.size + 1) = List.range' (t.size + 1) n.all.length := by
  have hids : ids.flatMap (top t' n tag ids).postorder = ids.flatMap t'.postorder := by
    apply List.flatMap_congr
    intro m hm
    exact (top_keeps h).postorder h.linked (top_linked h) (h.isRoot hm).1
  rw [(top_linked h).postorder_eq, top_children h, if_pos rfl, hids, h.postorder,
    Source.Node.all_eq, List.length_cons, List.range'_1_concat, h.size, Nat.add_right_comm]

private theorem top_transcript (hk : Tag.ofSpelling? n.tag = some tag) :
    n.transcript? = some ((top t' n tag ids).transcript (t'.size + 1)) := by
  have hids : ids.map (top t' n tag ids).transcript = ids.map t'.transcript := by
    apply List.map_congr_left
    intro m hm
    exact (top_keeps h).transcript h.linked (top_linked h) (h.isRoot hm).1
  obtain ⟨htag, hsymbol, -⟩ := place_links n.line n.column
    { tag, symbol := n.symbol, child := ids.headD 0 }
  obtain ⟨hline, hcolumn⟩ := place_eq n.line n.column
    (x := { tag, symbol := n.symbol, child := ids.headD 0 }) rfl rfl
  rw [(top_linked h).transcript_eq, top_children h, if_pos rfl, hids, Tree.tag, Tree.symbol,
    location, top_node? h]
  simp only [Option.map_some, Option.getD_some, htag, hsymbol, hline, hcolumn]
  rw [Source.Node.transcript?_eq, hk, transcripts?_eq h.shows]

theorem Plants.node (hk : Tag.ofSpelling? n.tag = some tag) :
    Plants [n] t [t'.size + 1] (top t' n tag ids) := by
  have hlen : (Source.Node.allOf [n]).length = n.all.length := by
    rw [Source.Node.allOf, Source.Node.allOf, List.append_nil]
  have hsize : t'.size + 1 = t.size + n.all.length := by
    rw [h.size, Source.Node.all_eq, List.length_cons, Nat.add_assoc]
  refine ⟨top_linked h, ?_, h.keeps.trans (top_keeps h), ?_, top_roots h, ?_, ?_⟩
  · rw [top, file_update, file_update, file_node, h.file]
  · rw [top_size h, hlen, hsize]
  · rw [List.flatMap_singleton, top_postorder h, hlen]
  · refine .cons ⟨isNode_of_node? (top_node? h), top_transcript h hk, ?_⟩ .nil
    rw [top_postorder h, hsize]
    congr 1
    omega

end Top

/-! ## Faults -/

/-- A run stops at the first of some faults; without any it gives a result with a property. -/
def Stops {α : Type} (run : Except Obstacle α) : List Fault → (α → Prop) → Prop
  | f :: _, _ => run = .error (.fault f)
  | [], P => ∃ a, run = .ok a ∧ P a

mutual

private theorem link_stops (name : String) {t : Tree} (h : t.Linked) (n : Source.Node) :
    Stops (link name t n) (Source.tagFaults name n.all) fun r =>
      r.1 = r.2.size ∧ Plants [n] t [r.1] r.2 := by
  match n with
  | ⟨tag, symbol, line, column, children⟩ =>
    rw [link, Source.Node.all, Source.tagFaults_cons]
    cases hk : Tag.ofSpelling? tag with
    | none => rfl
    | some known =>
      have ih := linkAll_stops name h children
      cases hf : Source.tagFaults name (Source.Node.allOf children) with
      | cons f rest =>
        rw [hf, Stops] at ih
        simp only [ih, Stops]
      | nil =>
        rw [hf, Stops] at ih
        obtain ⟨⟨ids, t'⟩, hrun, hp⟩ := ih
        refine ⟨(t'.size + 1, top t' ⟨tag, symbol, line, column, children⟩ known ids), ?_, ?_, ?_⟩
        · simp only [hrun]
          rw [hp.node_eq known]
          simp only [update_place]
          rfl
        · exact (top_size hp).symm
        · exact Plants.node hp hk

theorem linkAll_stops (name : String) {t : Tree} (h : t.Linked) (ns : List Source.Node) :
    Stops (linkAll name t ns) (Source.tagFaults name (Source.Node.allOf ns)) fun r =>
      Plants ns t r.1 r.2 := by
  match ns with
  | [] => exact ⟨_, rfl, .nil h⟩
  | n :: rest =>
    have hfirst := link_stops name h n
    rw [linkAll, Source.Node.allOf, Source.tagFaults_append]
    cases hf : Source.tagFaults name n.all with
    | cons f more =>
      rw [hf, Stops] at hfirst
      simp only [hfirst, List.cons_append, Stops]
    | nil =>
      rw [hf, Stops] at hfirst
      obtain ⟨⟨id, t'⟩, hrun, -, hp⟩ := hfirst
      have hrest := linkAll_stops name hp.linked rest
      rw [List.nil_append]
      cases hf' : Source.tagFaults name (Source.Node.allOf rest) with
      | cons f more =>
        rw [hf', Stops] at hrest
        simp only [hrun, hrest, Stops]
      | nil =>
        rw [hf', Stops] at hrest
        obtain ⟨⟨ids, t''⟩, hrun', hp'⟩ := hrest
        refine ⟨(id :: ids, t''), ?_, hp.append hp'⟩
        simp only [hrun, hrun']

end

/-! ## Expressions -/

/-- A tree that holds the expressions of a source, each under its name. -/
structure Collects (file : String) (es : List Source.Expression) (t : Tree)
    (xs : List Expression) : Prop where
  names : xs.map (·.name) = Source.names es
  nodup : (Source.names es).Nodup
  plants : ∃ ns, es.map (·.root) = ns.map some ∧ Plants ns ⟨file, #[]⟩ (xs.map (·.id)) t

theorem Collects.linked {file : String} {es : List Source.Expression} {t : Tree}
    {xs : List Expression} (h : Collects file es t xs) : t.Linked := by
  obtain ⟨ns, -, hp⟩ := h.plants
  exact hp.linked

theorem Collects.concat {file : String} {es : List Source.Expression} {t t' : Tree}
    {xs : List Expression} (h : Collects file es t xs) {e : Source.Expression} {n : Source.Node}
    {id : NodeId} (hname : expressionName es.length e ∉ Source.names es) (hroot : e.root = some n)
    (hp : Plants [n] t [id] t') :
    Collects file (es ++ [e]) t' (xs ++ [⟨expressionName es.length e, id⟩]) where
  names := by rw [List.map_append, h.names, Source.names_concat]; rfl
  nodup := by
    rw [Source.names_concat, List.nodup_append_comm]
    exact List.nodup_cons.mpr ⟨hname, h.nodup⟩
  plants := by
    obtain ⟨ns, hns, hall⟩ := h.plants
    refine ⟨ns ++ [n], ?_, ?_⟩
    · rw [List.map_append, hns, List.map_append, List.map_singleton, hroot]
      rfl
    · rw [List.map_append]
      exact hall.append hp

/-- The induction is on the expressions that are left; those before them are collected. -/
theorem addExpressions_stops {file : String} (rest : List Source.Expression)
    {before : List Source.Expression} {t : Tree} {done : List Expression}
    (h : Collects file before t done.reverse) :
    Stops (addExpressions t done before.length rest)
      ((rest.zipIdx before.length).flatMap fun p =>
        p.1.faults ((Source.names (before ++ rest)).take p.2) (expressionName p.2 p.1))
      fun r => Collects file (before ++ rest) r.1 r.2 := by
  induction rest generalizing before t done with
  | nil =>
    refine ⟨(t, done.reverse), rfl, ?_⟩
    rw [List.append_nil]
    exact h
  | cons e rest ih =>
    have htake : (Source.names (before ++ e :: rest)).take before.length = Source.names before :=
      Source.take_names before (e :: rest)
    have hany : done.any (·.name = expressionName before.length e) =
        decide (expressionName before.length e ∈ Source.names before) := by
      rw [← h.names, Bool.eq_iff_iff]
      simp only [List.any_eq_true, decide_eq_true_eq, List.mem_map, List.mem_reverse]
    rw [addExpressions, List.zipIdx_cons, List.flatMap_cons, htake, hany, Source.Expression.faults]
    by_cases hdup : expressionName before.length e ∈ Source.names before
    · simp [hdup, Stops]
    · rw [if_neg hdup, List.nil_append, decide_eq_false hdup, if_neg Bool.false_ne_true]
      cases hroot : e.root with
      | none => rfl
      | some n =>
        have hlink := link_stops (expressionName before.length e) h.linked n
        dsimp only
        cases hf : Source.tagFaults (expressionName before.length e) n.all with
        | cons f more =>
          rw [hf, Stops] at hlink
          simp only [hlink, List.cons_append, Stops]
        | nil =>
          rw [hf, Stops] at hlink
          obtain ⟨⟨id, t'⟩, hrun, -, hp⟩ := hlink
          have hc : Collects file (before ++ [e]) t'
              (⟨expressionName before.length e, id⟩ :: done).reverse := by
            rw [List.reverse_cons]
            exact h.concat hdup hroot hp
          have hnext := ih hc
          rw [List.length_append, List.append_assoc] at hnext
          simp only [hrun, List.nil_append]
          exact hnext

/-! ## Documents -/

private theorem lookup_eq {d : Document} (h : (d.expressions.map (·.name)).Nodup) {e : Expression}
    (he : e ∈ d.expressions) : d.lookup e.name = .ok e := by
  have hfind : d.expressions.find? (·.name = e.name) = some e := by
    generalize d.expressions = xs at h he
    induction xs with
    | nil => cases he
    | cons x xs ih =>
      rw [List.map_cons, List.nodup_cons] at h
      rw [List.find?_cons]
      rcases List.mem_cons.mp he with rfl | he
      · simp
      · have hne : x.name ≠ e.name := fun heq => h.1 (heq ▸ List.mem_map_of_mem he)
        simpa [hne] using ih h.2 he
  rw [lookup, hfind]

private theorem build_cases (source : Source) (value : Definition.Calculus) :
    (∃ f rest, source.faults = f :: rest ∧ build source value = .error (.fault f)) ∨
      source.faults = [] ∧ ∃ t xs, Collects source.file source.expressions t xs ∧
        build source value = complete source value t xs := by
  have hempty : Collects source.file [] ⟨source.file, #[]⟩ ([] : List Expression).reverse :=
    ⟨rfl, List.nodup_nil, [], rfl, .nil (linked_empty source.file)⟩
  have hall := addExpressions_stops source.expressions hempty
  change Stops (addExpressions { file := source.file } [] 0 source.expressions) source.faults _
    at hall
  cases hf : source.faults with
  | cons f rest =>
    rw [hf, Stops] at hall
    refine .inl ⟨f, rest, rfl, ?_⟩
    rw [build, hall]
  | nil =>
    rw [hf, Stops] at hall
    obtain ⟨⟨t, xs⟩, hrun, hc⟩ := hall
    refine .inr ⟨rfl, t, xs, hc, ?_⟩
    simp only [build, hrun]

private theorem complete_ok {source : Source} {value : Definition.Calculus} {t : Tree}
    {xs : List Expression} {d : Document} (h : complete source value t xs = .ok d) :
    d.tree = t ∧ d.expressions = xs := by
  unfold complete at h
  split at h
  · cases h
  · split at h
    · cases h
    · cases h
      exact ⟨rfl, rfl⟩

private theorem complete_ne_link (source : Source) (value : Definition.Calculus) (t : Tree)
    (xs : List Expression) (f : LinkFault) : complete source value t xs ≠ .error (.link f) := by
  intro h
  unfold complete at h
  split at h
  · cases h
  · split at h <;> cases h

private theorem forall₂_roots {es : List Source.Expression} {ns : List Source.Node}
    {ids : List NodeId} {R : Source.Node → NodeId → Prop} (hns : es.map (·.root) = ns.map some)
    (h : List.Forall₂ R ns ids) :
    List.Forall₂ (fun e id => ∃ n, e.root = some n ∧ R n id) es ids := by
  induction h generalizing es with
  | nil =>
    obtain rfl : es = [] := by simpa using hns
    exact .nil
  | @cons n id ns ids hr _ ih =>
    cases es with
    | nil => simp at hns
    | cons e es =>
      rw [List.map_cons, List.map_cons, List.cons.injEq] at hns
      exact .cons ⟨n, hns.1, hr⟩ (ih hns.2)

/-- A document says what its source says.  Linking never fails.  A document that is built has the
expressions of the source in order, each under its own name or `#` and its index, and the names are
different.  Its nodes are those of the source, numbered expression by expression and children first;
the roots among them are the expressions, and each of them shows the root that it was built from.
If something is wrong with the expressions, the first of it in the order of the source is the fault
that is reported: of an expression its name, then its root, then the tags from the root downward.
If nothing is wrong with them, only bindings and definitions can keep the document from being
built.  All this is so whatever values definitions have. -/
theorem build_faithful (source : Source) (value : Definition.Calculus) :
    (∀ f, build source value ≠ .error (.link f)) ∧
    (∀ d, build source value = .ok d →
      d.file = source.file ∧
      d.expressions.map (·.name) = Source.names source.expressions ∧
      (d.expressions.map (·.name)).Nodup ∧
      (∀ e ∈ d.expressions, d.lookup e.name = .ok e) ∧
      d.tree.size = (Source.nodes source.expressions).length ∧
      d.tree.roots = d.expressions.map (·.id) ∧
      (d.expressions.flatMap fun e => d.tree.postorder e.id) = d.tree.ids ∧
      List.Forall₂ (fun x e => ∃ n, x.root = some n ∧ Shows d.tree n e.id) source.expressions
        d.expressions) ∧
    (∀ f rest, source.faults = f :: rest → build source value = .error (.fault f)) ∧
    (source.faults = [] → ∀ scope defined, chain source.levels = .ok scope →
      scope.defineAll source.defines value = (defined, none) →
      ∃ d, build source value = .ok d ∧ d.scope = defined) := by
  rcases build_cases source value with ⟨f, rest, hf, hrun⟩ | ⟨hf, t, xs, hc, hrun⟩
  · refine ⟨?_, ?_, ?_, ?_⟩
    · simp [hrun]
    · simp [hrun]
    · intro g more hg
      rw [hf, List.cons.injEq] at hg
      rw [hrun, hg.1]
    · simp [hf]
  · refine ⟨?_, ?_, ?_, ?_⟩
    · intro f
      rw [hrun]
      exact complete_ne_link source value t xs f
    · intro d hd
      obtain ⟨rfl, rfl⟩ := complete_ok (hrun ▸ hd)
      obtain ⟨ns, hns, hp⟩ := hc.plants
      have hnodup : (d.expressions.map (·.name)).Nodup := hc.names ▸ hc.nodup
      refine ⟨hp.file, hc.names, hnodup, fun e => lookup_eq hnodup, ?_, hp.roots, ?_, ?_⟩
      · rw [hp.size, Source.nodes_eq hns]
        exact Nat.zero_add _
      · rw [ids_eq, hp.size, Nat.add_comm, ← List.flatMap_map (fun e : Expression => e.id)]
        exact hp.postorder
      · exact List.forall₂_map_right_iff.mp (forall₂_roots hns hp.shows)
    · simp [hf]
    · intro _ scope defined hchain hdefine
      refine ⟨⟨t, xs, defined⟩, ?_, rfl⟩
      simp only [hrun, complete, hchain, hdefine]

/-- The sum `1 + 2` in the first line, without a name, and the number 3 far below. -/
def sumAndNumber : Source where
  file := "a.sv"
  expressions :=
    [{ root := some
        { tag := "Constant_expression", line := 1,
          children := [{ tag := "int const", symbol := "1" }, { tag := "BinOp_Plus" },
            { tag := "IntConst", symbol := "2" }] } },
     { name := "x", root := some { tag := "IntConst", symbol := "3", line := 4294967299 } }]

/-- An expression without a name and a root, behind one that has its name. -/
def takenName : Source where
  expressions := [{ name := "#1", root := some { tag := "IntConst" } }, {}, { root := none }]

theorem build_faithful_sumAndNumber :
    (∃ d, build sumAndNumber = .ok d ∧ d.expressions = [⟨"#0", 4⟩, ⟨"x", 5⟩] ∧
      d.tree.size = 5 ∧ d.tree.roots = [4, 5] ∧ d.lookup "x" = .ok ⟨"x", 5⟩ ∧
      d.tree.postorder 4 = [1, 2, 3, 4] ∧ d.tree.transcript 5 = .node .intConst "3" 3 0 []) ∧
    build takenName = .error (.fault (.duplicateName "#1")) := by
  obtain ⟨-, hok, -, hbuild⟩ := build_faithful sumAndNumber Definition.value
  obtain ⟨-, -, hfault, -⟩ := build_faithful takenName Definition.value
  obtain ⟨d, hd, -⟩ := hbuild (by decide +kernel) _ _ rfl rfl
  obtain ⟨-, -, -, hlookup, hsize, hroots, -, hshows⟩ := hok d hd
  have hxs : d.expressions = [⟨"#0", 4⟩, ⟨"x", 5⟩] := by
    have hmap : (build sumAndNumber).toOption.map (·.expressions) =
        some [⟨"#0", 4⟩, ⟨"x", 5⟩] := by decide +kernel
    rw [hd] at hmap
    exact Option.some.inj hmap
  rw [hxs] at hlookup hroots hshows
  simp only [sumAndNumber, List.forall₂_cons, List.forall₂_nil_left_iff, Option.some.injEq,
    exists_eq_left', and_true] at hshows
  refine ⟨⟨d, hd, hxs, hsize, hroots, hlookup ⟨"x", 5⟩ (by simp), ?_, ?_⟩, hfault _ _ rfl⟩
  · exact hshows.1.block
  · exact (Option.some.inj hshows.2.transcript).symm

end Document

end HdlExpr
