import HdlExpr.Ir.Doc
import HdlExpr.Lower
import HdlExpr.Proofs.Run
import HdlExpr.Tree.Build

/-!
# Numbering

Lowering keeps every node that it makes.  The nodes of a lowered tree, with the references that
its part selects hang under, carry the numbers that the factory gave out, in order and without a
gap.  What a tree says depends on neither the numbers nor the parent.
-/

namespace HdlExpr

namespace Ir

/-- The selects that hang under a reference of their own. -/
def Kind.isPart : Kind → Bool
  | .partSelect | .indexedSelect => true
  | _ => false

/-- What a factory makes under one number. -/
structure Entry where
  id : Nat
  parent : Nat
  kind : Kind
  deriving DecidableEq, Repr

namespace Node

/-- What is made for a node alone, in order: the reference it hangs under, and the node. -/
def entries (n : Node) : List Entry :=
  (n.object?.map fun o => ⟨o.id, o.parent, .ref⟩).toList ++ [⟨n.id, n.parent, n.kind⟩]

def operands (n : Node) : List Node := n.children.flatMap Option.toList

theorem mem_operands {n child : Node} : child ∈ n.operands ↔ some child ∈ n.children := by
  simp [operands]

theorem operands_operation (id parent : Nat) (op : Opcode) (ns : List Node) :
    (Node.operation id parent op ns).operands = ns := by
  simp [operands, children, List.flatMap_map]

@[simp] theorem allOf_append (ns ms : List Node) : allOf (ns ++ ms) = allOf ns ++ allOf ms := by
  induction ns with
  | nil => rfl
  | cons n ns ih => rw [List.cons_append, allOf, allOf, ih, List.append_assoc]

@[simp] theorem allOf_toList (node : Option Node) : allOf node.toList = allOf? node := by
  cases node with
  | none => rfl
  | some n => exact List.append_nil _

@[simp] theorem encodeOf_append (ns ms : List Node) :
    encodeOf (ns ++ ms) = encodeOf ns ++ encodeOf ms := by
  induction ns with
  | nil => rfl
  | cons n ns ih => rw [List.cons_append, encodeOf, encodeOf, ih, List.cons_append]

theorem all_eq (n : Node) : n.all = n :: allOf n.operands := by
  cases n with
  | operation id parent op ns => rw [operands_operation, all]
  | bitSelect id parent name index => simp [operands, all, children]
  | partSelect id object fixed left right =>
    simp [operands, all, children]
  | indexedSelect id object direction fixed base width =>
    simp [operands, all, children]
  | constant | ref | call => rfl

theorem allOf_one (n : Node) : allOf [n] = n :: allOf n.operands := by
  rw [allOf, allOf, List.append_nil, all_eq]

private theorem object?_eq_none {n : Node} (h : n.kind.isPart = false) : n.object? = none := by
  cases n with
  | partSelect | indexedSelect => cases h
  | _ => rfl

theorem parent_of_object? {n : Node} {o : Ref} (h : n.object? = some o) : n.parent = o.id := by
  cases n with
  | partSelect | indexedSelect => simp_all [object?, parent]
  | _ => cases h

theorem entries_plain {n : Node} (h : n.kind.isPart = false) :
    n.entries = [⟨n.id, n.parent, n.kind⟩] := by
  rw [entries, object?_eq_none h]
  rfl

theorem entries_part {n : Node} {o : Ref} (h : n.object? = some o) :
    n.entries = [⟨o.id, o.parent, .ref⟩, ⟨n.id, o.id, n.kind⟩] := by
  rw [entries, h, parent_of_object? h]
  rfl

end Node

/-! ## What a factory gives out -/

/-- From one factory to a later one: what was made in between, in order, and numbered in order. -/
structure Factory.Gives (f : Factory) (es : List Entry) (f' : Factory) : Prop where
  ids : es.map Entry.id = List.range' (f.issued + 1) es.length
  made : f'.made = (es.map Entry.kind).reverse ++ f.made

namespace Factory.Gives

variable {f f₁ f₂ : Factory} {es es' : List Entry}

private theorem nil (f : Factory) : f.Gives [] f := ⟨rfl, rfl⟩

theorem one (f : Factory) (parent : Nat) (k : Kind) :
    f.Gives [⟨f.issued + 1, parent, k⟩] (f.issue k).2 := ⟨rfl, rfl⟩

private theorem issued_eq (h : f.Gives es f₁) : f₁.issued = f.issued + es.length := by
  rw [Factory.issued, h.made, List.length_append, List.length_reverse, List.length_map,
    Nat.add_comm]
  rfl

private theorem append (h : f.Gives es f₁) (h' : f₁.Gives es' f₂) : f.Gives (es ++ es') f₂ := by
  constructor
  · have hs : f₁.issued + 1 = f.issued + 1 + es.length := by
      rw [h.issued_eq, Nat.add_right_comm]
    rw [List.map_append, h.ids, h'.ids, hs, List.range'_append_1, List.length_append]
  · rw [h'.made, h.made, List.map_append, List.reverse_append, List.append_assoc]

private theorem count_eq (h : f.Gives es f₁) (k : Kind) :
    f₁.count k = f.count k + (es.map Entry.kind).count k := by
  rw [Factory.count, h.made, List.count_append, List.count_reverse, Nat.add_comm]
  rfl

theorem pairwise (h : f.Gives es f₁) : (es.map Entry.id).Pairwise (· < ·) := by
  rw [h.ids]
  exact List.pairwise_lt_range'

end Factory.Gives

end Ir

namespace Lower

open Ir (Node Kind Opcode Ref Factory Entry)

/-! ## What lowering makes -/

/-- The nodes that were made under a parent between two factories.  A node is made before its
operands and after the reference that it hangs under, and nothing else is made. -/
inductive Makes : Nat → Factory → List Node → Factory → Prop
  | nil (p : Nat) (f : Factory) : Makes p f [] f
  | append {p : Nat} {f f₁ f₂ : Factory} {ns ms : List Node} (left : Makes p f ns f₁)
      (right : Makes p f₁ ms f₂) : Makes p f (ns ++ ms) f₂
  | plain {p : Nat} {f f' : Factory} {n : Node} (kind : n.kind.isPart = false)
      (id : n.id = f.issued + 1) (parent : n.parent = p)
      (operands : Makes n.id (f.issue n.kind).2 n.operands f') : Makes p f [n] f'
  | part {p : Nat} {f f' : Factory} {n : Node} {o : Ref} (kind : n.kind.isPart = true)
      (object : n.object? = some o) (objectId : o.id = f.issued + 1) (parent : o.parent = p)
      (id : n.id = (f.issue .ref).2.issued + 1)
      (operands : Makes n.id ((f.issue .ref).2.issue n.kind).2 n.operands f') : Makes p f [n] f'

theorem Makes.gives {p : Nat} {f f' : Factory} {ns : List Node} (h : Makes p f ns f') :
    f.Gives ((Node.allOf ns).flatMap Node.entries) f' := by
  induction h with
  | nil p f => exact .nil f
  | append _ _ ih ih' =>
    rw [Node.allOf_append, List.flatMap_append]
    exact ih.append ih'
  | @plain p f f' n kind id parent _ ih =>
    have hone := Factory.Gives.one f n.parent n.kind
    rw [← id, ← Node.entries_plain kind] at hone
    rw [Node.allOf_one, List.flatMap_cons]
    exact hone.append ih
  | @part p f f' n o kind object objectId parent id _ ih =>
    have hone := (Factory.Gives.one f o.parent .ref).append
      (Factory.Gives.one (f.issue .ref).2 o.id n.kind)
    rw [← id, ← objectId, List.singleton_append, ← Node.entries_part object] at hone
    rw [Node.allOf_one, List.flatMap_cons]
    exact hone.append ih

theorem Makes.part_object {p : Nat} {f f' : Factory} {ns : List Node} (h : Makes p f ns f') :
    ∀ n ∈ Node.allOf ns, n.kind.isPart = true →
      ∃ o, n.object? = some o ∧ n.parent = o.id ∧ n.id = o.id + 1 := by
  induction h with
  | nil => nofun
  | append _ _ ih ih' =>
    rw [Node.allOf_append]
    exact fun n hn => (List.mem_append.mp hn).elim (ih n) (ih' n)
  | @plain p f f' n kind id parent _ ih =>
    rw [Node.allOf_one, List.forall_mem_cons]
    exact ⟨fun hk => by simp [kind] at hk, ih⟩
  | @part p f f' n o kind object objectId parent id _ ih =>
    rw [Node.allOf_one, List.forall_mem_cons]
    refine ⟨fun _ => ⟨o, object, Node.parent_of_object? object, ?_⟩, ih⟩
    rw [id, objectId]
    rfl

/-- From every state, a run makes the node that it gives, if any, with everything below it. -/
def RunMakes (p : Nat) (x : Run (Option Node)) : Prop :=
  ∀ s : State, Makes p s.factory (x s).1.toList (x s).2.factory

section Visit

variable {recur : NodeId → Nat → Substitution → Run (Option Node)}
  (h : ∀ n p σ, RunMakes p (recur n p σ))

include h

private theorem visitOperands_makes (p : Nat) (σ : Substitution) (ns : List NodeId) (s : State) :
    Makes p s.factory (visitOperands recur p σ ns s).1
      (visitOperands recur p σ ns s).2.factory := by
  induction ns generalizing s with
  | nil => exact .nil p _
  | cons n ns ih => exact .append (h n p σ s) (ih _)

private theorem visitOperation_makes (op : Opcode) (ns : List NodeId) (p : Nat) (σ : Substitution) :
    RunMakes p (visitOperation recur op ns p σ) := by
  intro s
  refine .plain rfl rfl rfl ?_
  rw [Node.operands_operation]
  exact visitOperands_makes h _ σ ns (issue .operation s).2

private theorem visitEvents_makes (first : NodeId) (rest : List (Tag × NodeId)) (p : Nat)
    (σ : Substitution) : RunMakes p (visitEvents recur first rest p σ) := by
  cases rest with
  | nil => exact h first p σ
  | cons item rest => exact visitOperation_makes h _ _ p σ

omit h in
private theorem visitLiteral_makes (tag : Tag) (text : String) (p : Nat) :
    RunMakes p (visitLiteral tag text p) := by
  unfold visitLiteral
  split
  · exact fun _ => .nil p _
  · exact fun _ => .plain rfl rfl rfl (.nil _ _)

omit h in
private theorem visitPlainName_makes (name : String) (p : Nat) (σ : Substitution) :
    RunMakes p (visitPlainName name p σ) := by
  unfold visitPlainName
  split
  · exact fun _ => .plain rfl rfl rfl (.nil _ _)
  · exact fun _ => .plain rfl rfl rfl (.nil _ _)

private theorem bounds_makes (p : Nat) (left right : NodeId) (s : State) :
    Makes p s.factory
      ([(recur left p .none s).1, (recur right p .none (recur left p .none s).2).1].flatMap
        Option.toList)
      (recur right p .none (recur left p .none s).2).2.factory := by
  rw [List.flatMap_cons, List.flatMap_singleton]
  exact .append (h left p .none s) (h right p .none _)

private theorem visitName_makes (ident : Ident) (p : Nat) (σ : Substitution) :
    RunMakes p (visitName recur ident p σ) := by
  unfold visitName
  split
  · exact visitPlainName_makes _ p σ
  · next index _ =>
    intro s
    have hi := h index (s.factory.issued + 1) .none (issue .bitSelect s).2
    rw [← List.flatMap_singleton Option.toList] at hi
    exact .plain rfl rfl rfl hi
  · intro s
    exact .part rfl rfl rfl rfl rfl (bounds_makes h _ _ _ (issue .partSelect (issue .ref s).2).2)
  · intro s
    exact .part rfl rfl rfl rfl rfl
      (bounds_makes h _ _ _ (issue .indexedSelect (issue .ref s).2).2)

private theorem visit_makes (form : Form) (p : Nat) (σ : Substitution) :
    RunMakes p (visit recur form p σ) := by
  unfold visit
  split
  · exact fun _ => .nil p _
  · split
    · exact fun _ => .nil p _
    · exact visitOperation_makes h _ _ p σ
  · exact visitOperation_makes h _ _ p σ
  · exact visitEvents_makes h _ _ p σ
  · exact visitLiteral_makes _ _ p
  · exact visitName_makes h _ p σ
  · exact h _ p σ
  · exact visitOperation_makes h _ _ p σ
  · exact fun _ => .plain rfl rfl rfl (.nil _ _)
  · exact visitOperation_makes h _ _ p .none

end Visit

@[simp] private theorem warn_factory (c : Context) (n : NodeId) (s : State) :
    (warn c n s).2.factory = s.factory := by
  cases hw : s.warned <;> simp [warn, report, hw]

private theorem lowerNode_makes (c : Context) (budget : Nat) (n : NodeId) (p : Nat)
    (σ : Substitution) : RunMakes p (lowerNode c budget n p σ) := by
  induction budget generalizing n p σ with
  | zero =>
    intro s
    have hf : (lowerNode c 0 n p σ s).2.factory = s.factory := warn_factory c n s
    rw [hf]
    exact .nil p _
  | succ budget ih => exact visit_makes ih _ p σ

theorem lower_makes (c : Context) (n : NodeId) (parent : Nat) (σ : Substitution)
    (factory : Factory) :
    Makes parent factory (lower c n parent σ factory).node.toList
      (lower c n parent σ factory).factory :=
  lowerNode_makes c c.limit n parent σ { factory }

/-! ## Documents without numbers -/

/-- Two runs from any two states, with results in relation. -/
def Alike {α β : Type} (R : α → β → Prop) (x : Run α) (y : Run β) : Prop :=
  ∀ s s' : State, R (x s).1 (y s').1

namespace Alike

variable {α β γ δ : Type} {R : α → β → Prop} {S : γ → δ → Prop}

theorem pure {a : α} {b : β} (h : R a b) : Alike R (Pure.pure a) (Pure.pure b) := fun _ _ => h

theorem any (x : Run α) (y : Run β) : Alike (fun _ _ => True) x y := fun _ _ => trivial

theorem bind {x : Run α} {y : Run β} {f : α → Run γ} {g : β → Run δ} (h : Alike R x y)
    (hf : ∀ a b, R a b → Alike S (f a) (g b)) : Alike S (x >>= f) (y >>= g) :=
  fun s s' => hf _ _ (h s s') _ _

end Alike

/-- Two results with the same document. -/
def SameDoc (node node' : Option Node) : Prop := node.map Node.encode = node'.map Node.encode

theorem SameDoc.encode? {node node' : Option Node} (h : SameDoc node node') :
    Node.encode? node = Node.encode? node' := by
  cases node <;> cases node' <;> simp_all [SameDoc, Node.encode?]

theorem SameDoc.encodeOf {node node' : Option Node} (h : SameDoc node node') :
    Node.encodeOf node.toList = Node.encodeOf node'.toList := by
  cases node <;> cases node' <;> simp_all [SameDoc, Node.encodeOf]

section Visit

variable {recur : NodeId → Nat → Substitution → Run (Option Node)}
  (h : ∀ n p q σ, Alike SameDoc (recur n p σ) (recur n q σ))

include h

private theorem visitOperands_alike (p q : Nat) (σ : Substitution) (ns : List NodeId) :
    Alike (fun nodes nodes' => Node.encodeOf nodes = Node.encodeOf nodes')
      (visitOperands recur p σ ns) (visitOperands recur q σ ns) := by
  induction ns with
  | nil => exact .pure rfl
  | cons n ns ih =>
    refine .bind (h n p q σ) fun first first' hf => ?_
    refine .bind ih fun others others' ho => .pure ?_
    rw [Node.encodeOf_append, Node.encodeOf_append, hf.encodeOf, ho]

private theorem visitOperation_alike (op : Opcode) (ns : List NodeId) (p q : Nat)
    (σ : Substitution) :
    Alike SameDoc (visitOperation recur op ns p σ) (visitOperation recur op ns q σ) := by
  refine .bind (.any _ _) fun id id' _ => ?_
  refine .bind (visitOperands_alike h id id' σ ns) fun nodes nodes' hn => .pure ?_
  simp [SameDoc, Node.encode, hn]

private theorem visitEvents_alike (first : NodeId) (rest : List (Tag × NodeId)) (p q : Nat)
    (σ : Substitution) :
    Alike SameDoc (visitEvents recur first rest p σ) (visitEvents recur first rest q σ) := by
  cases rest with
  | nil => exact h first p q σ
  | cons item rest => exact visitOperation_alike h _ _ p q σ

omit h in
private theorem visitLiteral_alike (tag : Tag) (text : String) (p q : Nat) :
    Alike SameDoc (visitLiteral tag text p) (visitLiteral tag text q) := by
  unfold visitLiteral
  split
  · exact .pure rfl
  · exact .bind (.any _ _) fun _ _ _ => .pure rfl

omit h in
private theorem visitPlainName_alike (name : String) (p q : Nat) (σ : Substitution) :
    Alike SameDoc (visitPlainName name p σ) (visitPlainName name q σ) := by
  unfold visitPlainName
  split
  · exact .bind (.any _ _) fun _ _ _ => .bind (.any _ _) fun _ _ _ => .pure rfl
  · exact .bind (.any _ _) fun _ _ _ => .pure rfl

private theorem visitName_alike (ident : Ident) (p q : Nat) (σ : Substitution) :
    Alike SameDoc (visitName recur ident p σ) (visitName recur ident q σ) := by
  unfold visitName
  split
  · exact visitPlainName_alike _ p q σ
  · refine .bind (.any _ _) fun id id' _ => ?_
    refine .bind (h _ id id' .none) fun index index' hi => .pure ?_
    simp [SameDoc, Node.encode, hi.encode?]
  · refine .bind (.any _ _) fun object object' _ => .bind (.any _ _) fun id id' _ => ?_
    refine .bind (h _ id id' .none) fun left left' hl => ?_
    refine .bind (h _ id id' .none) fun right right' hr => .pure ?_
    simp [SameDoc, Node.encode, Node.objectName, hl.encode?, hr.encode?]
  · refine .bind (.any _ _) fun object object' _ => .bind (.any _ _) fun id id' _ => ?_
    refine .bind (h _ id id' .none) fun base base' hb => ?_
    refine .bind (h _ id id' .none) fun width width' hw => .pure ?_
    simp [SameDoc, Node.encode, Node.objectName, hb.encode?, hw.encode?]

private theorem visit_alike (form : Form) (p q : Nat) (σ : Substitution) :
    Alike SameDoc (visit recur form p σ) (visit recur form q σ) := by
  unfold visit
  split
  · exact .pure rfl
  · split
    · exact .pure rfl
    · exact visitOperation_alike h _ _ p q σ
  · exact visitOperation_alike h _ _ p q σ
  · exact visitEvents_alike h _ _ p q σ
  · exact visitLiteral_alike _ _ p q
  · exact visitName_alike h _ p q σ
  · exact h _ p q σ
  · exact visitOperation_alike h _ _ p q σ
  · exact .bind (.any _ _) fun _ _ _ => .pure rfl
  · exact visitOperation_alike h _ _ p q .none

end Visit

private theorem lowerNode_alike (c : Context) (budget : Nat) (n : NodeId) (p q : Nat)
    (σ : Substitution) : Alike SameDoc (lowerNode c budget n p σ) (lowerNode c budget n q σ) := by
  induction budget generalizing n p q σ with
  | zero => exact .bind (.any _ _) fun _ _ _ => .pure rfl
  | succ budget ih =>
    refine .bind (visit_alike ih _ p q σ) fun node node' hn => ?_
    exact .bind (.any _ _) fun _ _ _ => .pure hn

/-! ## Counting -/

/-- Besides the nodes, one reference is made for each part select. -/
theorem kinds_perm {nodes : List Node}
    (h : ∀ m ∈ nodes, m.kind.isPart = true → ∃ o, m.object? = some o) :
    ((nodes.flatMap Node.entries).map Entry.kind).Perm
      (nodes.map Node.kind ++ .replicate (nodes.filter (·.kind.isPart)).length .ref) := by
  induction nodes with
  | nil => exact .nil
  | cons n nodes ih =>
    obtain ⟨hn, hnodes⟩ := List.forall_mem_cons.mp h
    rw [List.flatMap_cons, List.map_append, List.map_cons]
    cases hk : n.kind.isPart with
    | false =>
      rw [Node.entries_plain hk, List.filter_cons_of_neg (by simp [hk])]
      exact (ih hnodes).cons n.kind
    | true =>
      obtain ⟨o, ho⟩ := hn hk
      rw [Node.entries_part ho, List.filter_cons_of_pos (by simpa using hk), List.length_cons,
        List.replicate_succ]
      have hrest := ((ih hnodes).cons .ref).trans List.perm_middle.symm
      exact (List.Perm.swap n.kind .ref _).trans (hrest.cons n.kind)

private theorem ids_sublist (nodes : List Node) :
    (nodes.map Node.id).Sublist ((nodes.flatMap Node.entries).map Entry.id) := by
  induction nodes with
  | nil => exact .slnil
  | cons n nodes ih =>
    rw [List.map_cons, List.flatMap_cons, List.map_append, ← List.singleton_append]
    refine .append ?_ ih
    rw [Node.entries, List.map_append]
    exact List.sublist_append_right _ _

/-- A lowered tree is exactly what the factory made for it.  Its nodes are numbered in pre-order,
each part select right after the reference that it hangs under; the factory counts these and
nothing else, so nothing is made where nothing is lowered.  Neither the numbers given out before
nor the parent show in the document. -/
theorem lower_numbering (c : Context) (n : NodeId) (parent : Nat) (σ : Substitution)
    (factory : Factory) :
    let out := lower c n parent σ factory
    let nodes := Node.allOf? out.node
    let parts := nodes.filter (·.kind.isPart)
    (nodes.map Node.id).Pairwise (· < ·) ∧
      (nodes.flatMap Node.entries).map Entry.id =
        List.range' (factory.issued + 1) (nodes.length + parts.length) ∧
      out.factory.issued = factory.issued + (nodes.length + parts.length) ∧
      (∀ m ∈ parts, ∃ o, m.object? = some o ∧ m.parent = o.id ∧ m.id = o.id + 1) ∧
      (∀ k, out.factory.count k =
        factory.count k + (nodes.map Node.kind).count k +
          if k = .ref then parts.length else 0) ∧
      (out.node = none → out.factory = factory) ∧
      ∀ parent' factory',
        Node.encode? (lower c n parent' σ factory').node = Node.encode? out.node := by
  intro out nodes parts
  have hmakes : Makes parent factory out.node.toList out.factory := lower_makes c n parent σ factory
  have hgives := hmakes.gives
  have hobject := hmakes.part_object
  rw [Node.allOf_toList] at hgives hobject
  have hkinds := kinds_perm fun m hm hk => (hobject m hm hk).imp fun _ ho => ho.1
  have hlength : (nodes.flatMap Node.entries).length = nodes.length + parts.length := by
    have hl := hkinds.length_eq
    simpa using hl
  refine ⟨hgives.pairwise.sublist (ids_sublist nodes), ?_, ?_, ?_, fun k => ?_, fun hnone => ?_,
    fun parent' factory' => ?_⟩
  · rw [← hlength]
    exact hgives.ids
  · rw [← hlength]
    exact hgives.issued_eq
  · intro m hm
    obtain ⟨hm, hk⟩ := List.mem_filter.mp hm
    exact hobject m hm hk
  · rw [hgives.count_eq, hkinds.count_eq, List.count_append, List.count_replicate, Nat.add_assoc]
    simp only [beq_iff_eq, eq_comm (b := k)]
    rfl
  · have hmade := hgives.made
    rw [hnone] at hmade
    exact congrArg Factory.mk hmade
  · exact (lowerNode_alike c c.limit n parent' parent σ { factory := factory' }
      { factory }).encode?

/-- `w[v[3:0]:1] + x` -/
def nestedParts : Tree.Build NodeId := do
  let inner ← .partSelect "v" (← .literal .intConst "3") (← .literal .intConst "0")
  let outer ← .partSelect "w" inner (← .literal .intConst "1")
  .binary outer .binOpPlus (← .ident ["x"])

def nestedPartsContext : Context := ⟨(nestedParts ⟨"a.sv", #[]⟩).2, 10⟩

/-- The whole is node 31.  It is lowered under a call, which has the number one. -/
def nestedPartsLowered : Outcome := lower nestedPartsContext 31 1 .none ⟨[.call]⟩

theorem lower_numbering_nestedParts :
    let nodes := Node.allOf? nestedPartsLowered.node
    let parts := nodes.filter (·.kind.isPart)
    (nodes.map Node.id = [2, 4, 6, 7, 8, 9, 10] ∧ parts.map Node.id = [4, 6]) ∧
      (nodes.flatMap Node.entries).map Entry.id = [2, 3, 4, 5, 6, 7, 8, 9, 10] ∧
      (∀ m ∈ parts, ∃ o, m.object? = some o ∧ m.parent = o.id ∧ m.id = o.id + 1) ∧
      nestedPartsLowered.factory.issued = 10 ∧ nestedPartsLowered.factory.count .ref = 3 := by
  intro nodes parts
  have hnodes : nodes.map Node.id = [2, 4, 6, 7, 8, 9, 10] := by decide +kernel
  have hparts : parts.map Node.id = [4, 6] := by decide +kernel
  have hkinds : (nodes.map Node.kind).count .ref = 1 := by decide +kernel
  have hlength : nodes.length = 7 := by simpa using congrArg List.length hnodes
  have hlength' : parts.length = 2 := by simpa using congrArg List.length hparts
  obtain ⟨_, hids, hissued, hobject, hcount, _⟩ :=
    lower_numbering nestedPartsContext 31 1 .none ⟨[.call]⟩
  change (nodes.flatMap Node.entries).map Entry.id =
    List.range' 2 (nodes.length + parts.length) at hids
  change nestedPartsLowered.factory.issued = 1 + (nodes.length + parts.length) at hissued
  have href := hcount .ref
  change nestedPartsLowered.factory.count .ref =
    0 + (nodes.map Node.kind).count .ref + parts.length at href
  rw [hlength, hlength'] at hids hissued
  rw [hkinds, hlength'] at href
  exact ⟨⟨hnodes, hparts⟩, hids, hobject, hissued, href⟩

end Lower

end HdlExpr
