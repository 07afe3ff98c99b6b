import HdlExpr.Proofs.Lower.Numbering

/-!
# Trimmed documents

Where less of an expression may be looked at, its document is trimmed: operations lose operands, the
bounds of selects become blank, and if even the outermost node is out of reach, nothing is left.
-/

namespace HdlExpr

namespace Ir.Doc

mutual

/-- A document without some operands of its operations and without some bounds of its selects. -/
inductive Trim : Doc → Doc → Prop
  | leaf {d : Doc} (h : d.operands = []) : Trim d d
  | operation {d : Doc} {ds : List Doc} (hk : d.kind = "Operation")
      (h : Deletes ds d.operands) : Trim { d with operands := ds } d
  | select {d : Doc} {ds : List Doc}
      (hk : d.kind ∈ ["BitSelect", "PartSelect", "IndexedPartSelect"])
      (h : Blanks ds d.operands) : Trim { d with operands := ds } d

/-- Operands that stay, trimmed, without those that are deleted. -/
inductive Deletes : List Doc → List Doc → Prop
  | nil : Deletes [] []
  | keep {d d' : Doc} {ds ds' : List Doc} (h : Trim d d') (hs : Deletes ds ds') :
      Deletes (d :: ds) (d' :: ds')
  | delete {ds ds' : List Doc} (d' : Doc) (hs : Deletes ds ds') : Deletes ds (d' :: ds')

/-- Bounds that stay, trimmed, with blanks in the places of the others. -/
inductive Blanks : List Doc → List Doc → Prop
  | nil : Blanks [] []
  | keep {d d' : Doc} {ds ds' : List Doc} (h : Trim d d') (hs : Blanks ds ds') :
      Blanks (d :: ds) (d' :: ds')
  | blank {ds ds' : List Doc} (d' : Doc) (hs : Blanks ds ds') : Blanks (.empty :: ds) (d' :: ds')

end

end Ir.Doc

namespace Lower

open Ir (Node Kind Opcode Direction Ref Factory Doc)

/-- Of two results the first is nothing, or has the document of the second, trimmed. -/
inductive Trimmed : Option Node → Option Node → Prop
  | none (node : Option Node) : Trimmed none node
  | some {n n' : Node} (h : n.encode.Trim n'.encode) : Trimmed (some n) (some n')

namespace Trimmed

variable {node node' : Option Node}

private theorem deletes (h : Trimmed node node') {ds ds' : List Doc} (hs : Doc.Deletes ds ds') :
    Doc.Deletes (Node.encodeOf node.toList ++ ds) (Node.encodeOf node'.toList ++ ds') := by
  cases h with
  | none =>
    cases node' with
    | none => exact hs
    | some n => exact .delete n.encode hs
  | some h => exact .keep h hs

private theorem blanks (h : Trimmed node node') {ds ds' : List Doc} (hs : Doc.Blanks ds ds') :
    Doc.Blanks (Node.encode? node :: ds) (Node.encode? node' :: ds') := by
  cases h with
  | none => exact .blank _ hs
  | some h => exact .keep h hs

theorem encode? (h : Trimmed node node') :
    Node.encode? node = .empty ∨ (Node.encode? node).Trim (Node.encode? node') := by
  cases h with
  | none => exact .inl rfl
  | some h => exact .inr h

end Trimmed

private theorem trimmed_leaf {n n' : Node} (h : n.encode = n'.encode)
    (hl : n'.encode.operands = []) : Trimmed (some n) (some n') := by
  refine .some ?_
  rw [h]
  exact .leaf hl

private theorem trimmed_operation {n n' : Node} {ds : List Doc}
    (h : n.encode = { n'.encode with operands := ds }) (hk : n'.encode.kind = "Operation")
    (hd : Doc.Deletes ds n'.encode.operands) : Trimmed (some n) (some n') := by
  refine .some ?_
  rw [h]
  exact .operation hk hd

private theorem trimmed_select {n n' : Node} {ds : List Doc}
    (h : n.encode = { n'.encode with operands := ds })
    (hk : n'.encode.kind ∈ ["BitSelect", "PartSelect", "IndexedPartSelect"])
    (hb : Doc.Blanks ds n'.encode.operands) : Trimmed (some n) (some n') := by
  refine .some ?_
  rw [h]
  exact .select hk hb

section Visit

variable {recur recur' : NodeId → Nat → Substitution → Run (Option Node)}
  (h : ∀ n p q σ, Alike Trimmed (recur n p σ) (recur' n q σ))

include h

private theorem visitOperands_trimmed (p q : Nat) (σ : Substitution) (ns : List NodeId) :
    Alike (fun nodes nodes' => Doc.Deletes (Node.encodeOf nodes) (Node.encodeOf nodes'))
      (visitOperands recur p σ ns) (visitOperands recur' q σ ns) := by
  induction ns with
  | nil => exact .pure .nil
  | cons n ns ih =>
    refine .bind (h n p q σ) fun first first' hf => ?_
    refine .bind ih fun others others' ho => .pure ?_
    rw [Node.encodeOf_append, Node.encodeOf_append]
    exact hf.deletes ho

private theorem visitOperation_trimmed (op : Opcode) (ns : List NodeId) (p q : Nat)
    (σ : Substitution) :
    Alike Trimmed (visitOperation recur op ns p σ) (visitOperation recur' op ns q σ) := by
  refine .bind (.any _ _) fun id id' _ => ?_
  refine .bind (visitOperands_trimmed h id id' σ ns) fun nodes nodes' hn => .pure ?_
  exact trimmed_operation rfl rfl hn

omit h in
private theorem visitLiteral_trimmed (tag : Tag) (text : String) (p q : Nat) :
    Alike Trimmed (visitLiteral tag text p) (visitLiteral tag text q) := by
  unfold visitLiteral
  split
  · exact .pure (.none _)
  · exact .bind (.any _ _) fun _ _ _ => .pure (trimmed_leaf rfl rfl)

omit h in
private theorem visitPlainName_trimmed (name : String) (p q : Nat) (σ : Substitution) :
    Alike Trimmed (visitPlainName name p σ) (visitPlainName name q σ) := by
  unfold visitPlainName
  split
  · refine .bind (.any _ _) fun _ _ _ => ?_
    exact .bind (.any _ _) fun _ _ _ => .pure (trimmed_leaf rfl rfl)
  · exact .bind (.any _ _) fun _ _ _ => .pure (trimmed_leaf rfl rfl)

private theorem visitName_trimmed (ident : Ident) (p q : Nat) (σ : Substitution) :
    Alike Trimmed (visitName recur ident p σ) (visitName recur' ident q σ) := by
  unfold visitName
  split
  · exact visitPlainName_trimmed _ p q σ
  · refine .bind (.any _ _) fun id id' _ => ?_
    refine .bind (h _ id id' .none) fun index index' hi => .pure ?_
    exact trimmed_select rfl (by simp [Node.encode]) (hi.blanks .nil)
  · refine .bind (.any _ _) fun object object' _ => .bind (.any _ _) fun id id' _ => ?_
    refine .bind (h _ id id' .none) fun left left' hl => ?_
    refine .bind (h _ id id' .none) fun right right' hr => .pure ?_
    exact trimmed_select rfl (by simp [Node.encode]) (hl.blanks (hr.blanks .nil))
  · refine .bind (.any _ _) fun object object' _ => .bind (.any _ _) fun id id' _ => ?_
    refine .bind (h _ id id' .none) fun base base' hb => ?_
    refine .bind (h _ id id' .none) fun width width' hw => .pure ?_
    exact trimmed_select rfl (by simp [Node.encode]) (hb.blanks (hw.blanks .nil))

private theorem visit_trimmed (form : Form) (p q : Nat) (σ : Substitution) :
    Alike Trimmed (visit recur form p σ) (visit recur' form q σ) := by
  obtain ⟨node, site, shape⟩ := form
  cases shape with
  | empty => exact .pure (.none _)
  | unary op operand =>
    simp only [visit]
    split
    · exact .pure (.none _)
    · exact visitOperation_trimmed h _ _ p q σ
  | binary left op right => exact visitOperation_trimmed h _ _ p q σ
  | events first rest =>
    cases rest with
    | nil => exact h first p q σ
    | cons item rest => exact visitOperation_trimmed h _ _ p q σ
  | literal tag text => exact visitLiteral_trimmed tag text p q
  | name ident => exact visitName_trimmed h ident p q σ
  | lvalue operand op =>
    cases op with
    | none => exact h operand p q σ
    | some op => exact visitOperation_trimmed h _ _ p q σ
  | call function => exact .bind (.any _ _) fun _ _ _ => .pure (trimmed_leaf rfl rfl)
  | concat tag operands => exact visitOperation_trimmed h _ _ p q .none

end Visit

/-- Lowering that may look less deep gives a trimmed document. -/
theorem lowerNode_trimmed (t : Tree) (limit limit' : Nat) {budget budget' : Nat}
    (hle : budget ≤ budget') (n : NodeId) (p q : Nat) (σ : Substitution) :
    Alike Trimmed (lowerNode ⟨t, limit⟩ budget n p σ) (lowerNode ⟨t, limit'⟩ budget' n q σ) := by
  induction budget generalizing budget' n p q σ with
  | zero =>
    intro s s'
    exact .none _
  | succ budget ih =>
    cases budget' with
    | zero => exact absurd hle (Nat.not_succ_le_zero budget)
    | succ budget' =>
      have hvisit := visit_trimmed (fun m p q σ => ih (Nat.le_of_succ_le_succ hle) m p q σ)
        (Form.decode t n) p q σ
      refine .bind hvisit fun node node' hn => ?_
      exact .bind (.any _ _) fun _ _ _ => .pure hn

end Lower

end HdlExpr
