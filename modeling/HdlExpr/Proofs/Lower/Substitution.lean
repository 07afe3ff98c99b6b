import HdlExpr.Ir.Doc
import HdlExpr.Proofs.Lower.Frames
import HdlExpr.Proofs.Run
import HdlExpr.Tree.Build

/-!
# Substitution rewrites leaves

Lowering with substitution gives what lowering without it gives, with constants in the place of the
references that the scope binds to valid values.  References inside concatenations and selects stay
as they are, and both lowerings number their nodes alike.  This holds of the lowering that saves
and restores its surroundings, at every depth of nesting.
-/

namespace HdlExpr

/-! ## What a scope replaces -/

namespace Lower

open Substitution (ofScope)

variable {scope : Scope} {name : String}

theorem ofScope_eq_some_iff {v : Value} :
    ofScope scope name = some v ↔
      ∃ slot, scope.lookup name = some slot ∧ scope.load slot = v ∧ v.isValid = true := by
  rw [ofScope, Scope.get?, Option.filter_eq_some_iff, Option.map_eq_some_iff]
  constructor
  · rintro ⟨⟨slot, hslot, hload⟩, hv⟩
    exact ⟨slot, hslot, hload, hv⟩
  · rintro ⟨slot, hslot, hload, hv⟩
    exact ⟨⟨slot, hslot, hload⟩, hv⟩

theorem ofScope_eq_none_iff :
    ofScope scope name = none ↔
      ∀ slot, scope.lookup name = some slot → (scope.load slot).isValid = false := by
  rw [ofScope, Scope.get?, Option.filter_eq_none_iff]
  simp

end Lower

namespace Ir

mutual

/-- A tree with constants for references, except inside concatenations and selects. -/
def Node.substitute (σ : Lower.Substitution) : Node → Node
  | .operation id parent op operands =>
    if op = .concat ∨ op = .multiConcat then .operation id parent op operands
    else .operation id parent op (substituteOf σ operands)
  | .ref r =>
    match σ r.name with
    | some v => .constant r.id r.parent v.encode
    | none => .ref r
  | .constant id parent text => .constant id parent text
  | .bitSelect id parent name index => .bitSelect id parent name index
  | .partSelect id object fixed left right => .partSelect id object fixed left right
  | .indexedSelect id object direction fixed base width =>
    .indexedSelect id object direction fixed base width
  | .call id parent function => .call id parent function

def Node.substituteOf (σ : Lower.Substitution) : List Node → List Node
  | [] => []
  | n :: rest => n.substitute σ :: substituteOf σ rest

end

mutual

/-- A document with a constant for each reference to a name that a scope binds to a valid value,
except inside concatenations and selects. -/
def Doc.substitute (scope : Scope) : Doc → Doc
  | ⟨kind, op, value, name, ref, direction, constant, operands⟩ =>
    match kind with
    | "RefObj" =>
      match scope.lookup name with
      | some slot =>
        if (scope.load slot).isValid then
          { kind := "Constant", value := (scope.load slot).encode }
        else ⟨kind, op, value, name, ref, direction, constant, operands⟩
      | none => ⟨kind, op, value, name, ref, direction, constant, operands⟩
    | "Operation" =>
      if op = "Concat" ∨ op = "MultiConcat" then
        ⟨kind, op, value, name, ref, direction, constant, operands⟩
      else ⟨kind, op, value, name, ref, direction, constant, substituteOf scope operands⟩
    | _ => ⟨kind, op, value, name, ref, direction, constant, operands⟩

def Doc.substituteOf (scope : Scope) : List Doc → List Doc
  | [] => []
  | d :: rest => d.substitute scope :: substituteOf scope rest

end

/-! ## Trees and documents -/

private theorem name_other_ne (n : Int) {s : String} (h : s.toList.head? ≠ some 'O') :
    (Opcode.other n).name ≠ s := by
  intro he
  apply h
  rw [← he]
  simp [Opcode.name]

theorem Opcode.name_concat_iff (op : Opcode) :
    op.name = "Concat" ∨ op.name = "MultiConcat" ↔ op = .concat ∨ op = .multiConcat := by
  cases op with
  | other n =>
    have h₁ : (Opcode.other n).name ≠ "Concat" := name_other_ne n (by decide)
    have h₂ : (Opcode.other n).name ≠ "MultiConcat" := name_other_ne n (by decide)
    simp [h₁, h₂]
  | _ => decide

mutual

theorem Node.encode_substitute (scope : Scope) :
    ∀ n : Node, (n.substitute (.ofScope scope)).encode = n.encode.substitute scope
  | .operation id parent op operands => by
    have hn := op.name_concat_iff
    by_cases h : op = .concat ∨ op = .multiConcat
    · simp [Node.substitute, Node.encode, Doc.substitute, h, hn]
    · simp [Node.substitute, Node.encode, Doc.substitute, h, hn,
        Node.encodeOf_substituteOf scope operands]
  | .ref r => by
    cases hslot : scope.lookup r.name with
    | none =>
      have hσ : Lower.Substitution.ofScope scope r.name = none :=
        Lower.ofScope_eq_none_iff.mpr fun slot h => by simp [hslot] at h
      simp [Node.substitute, Node.encode, Doc.substitute, hslot, hσ]
    | some slot =>
      cases hvalid : (scope.load slot).isValid with
      | true =>
        have hσ := Lower.ofScope_eq_some_iff.mpr ⟨slot, hslot, rfl, hvalid⟩
        simp [Node.substitute, Node.encode, Doc.substitute, hslot, hvalid, hσ]
      | false =>
        have hσ : Lower.Substitution.ofScope scope r.name = none :=
          Lower.ofScope_eq_none_iff.mpr fun slot' h => by
            rwa [← Option.some.inj (hslot.symm.trans h)]
        simp [Node.substitute, Node.encode, Doc.substitute, hslot, hvalid, hσ]
  | .constant .. => rfl
  | .bitSelect .. => rfl
  | .partSelect .. => rfl
  | .indexedSelect .. => rfl
  | .call .. => rfl

theorem Node.encodeOf_substituteOf (scope : Scope) :
    ∀ ns : List Node, Node.encodeOf (Node.substituteOf (.ofScope scope) ns) =
      Doc.substituteOf scope (Node.encodeOf ns)
  | [] => rfl
  | n :: rest => by
    simp [Node.substituteOf, Node.encodeOf, Doc.substituteOf, Node.encode_substitute scope n,
      Node.encodeOf_substituteOf scope rest]

end

theorem Node.encode?_substitute (scope : Scope) (node : Option Node) :
    Node.encode? (node.map (Node.substitute (.ofScope scope))) =
      (Node.encode? node).substitute scope := by
  cases node with
  | none => rfl
  | some n => exact Node.encode_substitute scope n

/-- The numbers that a node carries: its own, that of its parent, and the object that it hangs
under. -/
def Node.numbers (n : Node) : Nat × Nat × Option Ref := (n.id, n.parent, n.object?)

mutual

theorem Node.all_substitute (σ : Lower.Substitution) :
    ∀ n : Node, (n.substitute σ).all.map Node.numbers = n.all.map Node.numbers
  | .operation id parent op operands => by
    by_cases h : op = .concat ∨ op = .multiConcat
    · simp [Node.substitute, h]
    · simp [Node.substitute, h, Node.all, Node.numbers, Node.id, Node.parent, Node.object?,
        Node.allOf_substituteOf σ operands]
  | .ref r => by
    cases h : σ r.name <;>
      simp [Node.substitute, h, Node.all, Node.numbers, Node.id, Node.parent, Node.object?]
  | .constant .. => rfl
  | .bitSelect .. => rfl
  | .partSelect .. => rfl
  | .indexedSelect .. => rfl
  | .call .. => rfl

theorem Node.allOf_substituteOf (σ : Lower.Substitution) :
    ∀ ns : List Node,
      (Node.allOf (Node.substituteOf σ ns)).map Node.numbers = (Node.allOf ns).map Node.numbers
  | [] => rfl
  | n :: rest => by
    simp [Node.substituteOf, Node.allOf, Node.all_substitute σ n, Node.allOf_substituteOf σ rest]

end

theorem Node.allOf?_substitute (σ : Lower.Substitution) (node : Option Node) :
    (Node.allOf? (node.map (Node.substitute σ))).map Node.numbers =
      (Node.allOf? node).map Node.numbers := by
  cases node with
  | none => rfl
  | some n => exact Node.all_substitute σ n

mutual

@[simp] theorem Node.substitute_none : ∀ n : Node, n.substitute .none = n
  | .operation id parent op operands => by
    simp [Node.substitute, Node.substituteOf_none operands]
  | .ref r => by simp [Node.substitute, Lower.Substitution.none]
  | .constant .. => rfl
  | .bitSelect .. => rfl
  | .partSelect .. => rfl
  | .indexedSelect .. => rfl
  | .call .. => rfl

@[simp] theorem Node.substituteOf_none : ∀ ns : List Node, Node.substituteOf .none ns = ns
  | [] => rfl
  | n :: rest => by
    simp [Node.substituteOf, Node.substitute_none n, Node.substituteOf_none rest]

end

@[simp] theorem Node.substituteOf_append (σ : Lower.Substitution) (ns ms : List Node) :
    Node.substituteOf σ (ns ++ ms) = Node.substituteOf σ ns ++ Node.substituteOf σ ms := by
  induction ns with
  | nil => rfl
  | cons n ns ih => simp [Node.substituteOf, ih]

@[simp] theorem Node.substituteOf_toList (σ : Lower.Substitution) (node : Option Node) :
    Node.substituteOf σ node.toList = (node.map (Node.substitute σ)).toList := by
  cases node <;> rfl

end Ir

/-! ## Two lowerings side by side -/

namespace Lower

open Ir (Node Kind Opcode Factory)

/-- Two runs that start after equally many numbers end after equally many, with results in
relation. -/
def Parallel {α β : Type} (R : α → β → Prop) (x : Run α) (y : Run β) : Prop :=
  ∀ s s' : State, s.factory.issued = s'.factory.issued →
    R (x s).1 (y s').1 ∧ (x s).2.factory.issued = (y s').2.factory.issued

namespace Parallel

variable {α β γ δ : Type} {R : α → β → Prop} {S : γ → δ → Prop}

private theorem pure {a : α} {b : β} (h : R a b) : Parallel R (Pure.pure a) (Pure.pure b) :=
  fun _ _ hs => ⟨h, hs⟩

private theorem bind {x : Run α} {y : Run β} {f : α → Run γ} {g : β → Run δ} (h : Parallel R x y)
    (hf : ∀ a b, R a b → Parallel S (f a) (g b)) : Parallel S (x >>= f) (y >>= g) := by
  intro s s' hs
  obtain ⟨hr, hi⟩ := h s s' hs
  exact hf _ _ hr _ _ hi

private theorem issue (k l : Kind) : Parallel Eq (issue k) (issue l) := by
  intro s s' hs
  exact ⟨congrArg (· + 1) hs, congrArg (· + 1) hs⟩

private theorem report (r r' : Report) : Parallel (fun _ _ => True) (report r) (report r') :=
  fun _ _ hs => ⟨trivial, hs⟩

private theorem report_left {x : Run α} {y : Run β} (r : Report) (h : Parallel R x y) :
    Parallel R (do Lower.report r; x) y := by
  intro s s' hs
  exact h (Lower.report r s).2 s' hs

private theorem warn (c : Context) (n : NodeId) :
    Parallel (fun _ _ => True) (warn c n) (warn c n) := by
  intro s s' hs
  cases hw : s.warned <;> cases hw' : s'.warned <;> simp [Lower.warn, Lower.report, hw, hw', hs]

end Parallel

/-- Of two results the first is the second with constants for references. -/
def Rewritten (σ : Substitution) (node node' : Option Node) : Prop :=
  node = node'.map (Node.substitute σ)

private theorem rewritten_none {node node' : Option Node} :
    Rewritten .none node node' ↔ node = node' := by
  have hid : Node.substitute .none = id := funext Node.substitute_none
  rw [Rewritten, hid, Option.map_id]
  rfl

private theorem combinator?_eq_some {t : Tag} {op : Opcode} (h : t.combinator? = some op) :
    op = .eventOr ∨ op = .list := by
  cases t <;> simp_all [Tag.combinator?]

/-- The operators that join the operands of a concatenation. -/
def IsConcat (op : Opcode) : Prop := op = .concat ∨ op = .multiConcat

private theorem not_isConcat_lastCombinator (rest : List (Tag × NodeId)) :
    ¬IsConcat (lastCombinator rest) := by
  have hn : ¬IsConcat .null := by simp [IsConcat]
  unfold lastCombinator
  generalize Opcode.null = op at hn ⊢
  induction rest generalizing op with
  | nil => exact hn
  | cons item rest ih =>
    apply ih
    cases hc : item.1.combinator? with
    | none => simpa [hc] using hn
    | some code => rcases combinator?_eq_some hc with rfl | rfl <;> simp [IsConcat, hc]

private theorem not_isConcat_unaryOp {op : Tag} {code : Opcode} (h : op.unaryOp? = some code) :
    ¬IsConcat code := by
  rintro (rfl | rfl) <;> cases op <;> simp [Tag.unaryOp?] at h

private theorem not_isConcat_binaryOp (op : Tag) : ¬IsConcat (op.binaryOp?.getD .null) := by
  cases op <;> simp [IsConcat, Tag.binaryOp?]

private theorem not_isConcat_postOp (op : Tag) : ¬IsConcat (op.postOp?.getD .null) := by
  cases op <;> simp [IsConcat, Tag.postOp?]

section Visit

variable {recur : NodeId → Nat → Substitution → Run (Option Node)}
  (h : ∀ σ n parent, Parallel (Rewritten σ) (recur n parent σ) (recur n parent .none))

include h

private theorem visitOperands_parallel (σ : Substitution) (parent : Nat) (ns : List NodeId) :
    Parallel (fun nodes nodes' => nodes = Node.substituteOf σ nodes')
      (visitOperands recur parent σ ns) (visitOperands recur parent .none ns) := by
  induction ns with
  | nil => exact .pure rfl
  | cons n ns ih =>
    refine .bind (h σ n parent) fun first first' hf => ?_
    refine .bind ih fun others others' ho => .pure ?_
    rw [Node.substituteOf_append, Node.substituteOf_toList, ho, hf]

private theorem visitOperation_parallel (σ : Substitution) {op : Opcode}
    (hop : ¬IsConcat op) (operands : List NodeId) (parent : Nat) :
    Parallel (Rewritten σ) (visitOperation recur op operands parent σ)
      (visitOperation recur op operands parent .none) := by
  refine .bind (.issue _ _) fun id _ he => ?_
  subst he
  refine .bind (visitOperands_parallel h σ id operands) fun nodes nodes' hn => .pure ?_
  rw [IsConcat] at hop
  simp [Rewritten, Node.substitute, hop, hn]

/-- The operands of a concatenation are lowered without a substitution in both runs. -/
theorem visitConcat_parallel (σ : Substitution) {op : Opcode}
    (hop : IsConcat op) (operands : List NodeId) (parent : Nat) :
    Parallel (Rewritten σ) (visitOperation recur op operands parent .none)
      (visitOperation recur op operands parent .none) := by
  refine .bind (.issue _ _) fun id _ he => ?_
  subst he
  refine .bind (visitOperands_parallel h .none id operands) fun nodes nodes' hn => .pure ?_
  rw [Node.substituteOf_none] at hn
  rw [IsConcat] at hop
  simp [Rewritten, Node.substitute, hop, hn]

private theorem visitEvents_parallel (σ : Substitution) (first : NodeId)
    (rest : List (Tag × NodeId)) (parent : Nat) :
    Parallel (Rewritten σ) (visitEvents recur first rest parent σ)
      (visitEvents recur first rest parent .none) := by
  cases rest with
  | nil => exact h σ first parent
  | cons item rest =>
    exact visitOperation_parallel h σ (not_isConcat_lastCombinator _) _ parent

omit h in
private theorem visitLiteral_parallel (σ : Substitution) (tag : Tag) (text : String)
    (parent : Nat) :
    Parallel (Rewritten σ) (visitLiteral tag text parent) (visitLiteral tag text parent) := by
  unfold visitLiteral
  split
  · exact .pure rfl
  · refine .bind (.issue _ _) fun id _ he => .pure ?_
    subst he
    rfl

omit h in
private theorem visitPlainName_parallel (σ : Substitution) (name : String) (parent : Nat) :
    Parallel (Rewritten σ) (visitPlainName name parent σ) (visitPlainName name parent .none) := by
  have hn : visitPlainName name parent .none =
      (do pure (some (.ref ⟨← issue .ref, parent, name⟩))) := rfl
  rw [hn]
  unfold visitPlainName
  split
  · refine .report_left _ (.bind (.issue _ _) fun id _ he => .pure ?_)
    subst he
    simp [Rewritten, Node.substitute, *]
  · refine .bind (.issue _ _) fun id _ he => .pure ?_
    subst he
    simp [Rewritten, Node.substitute, *]

private theorem visitName_parallel (σ : Substitution) (ident : Ident) (parent : Nat) :
    Parallel (Rewritten σ) (visitName recur ident parent σ)
      (visitName recur ident parent .none) := by
  unfold visitName
  split
  · exact visitPlainName_parallel σ _ parent
  · refine .bind (.issue _ _) fun id _ he => ?_
    subst he
    refine .bind (h .none _ id) fun index index' hi => .pure ?_
    rw [rewritten_none.mp hi]
    rfl
  · refine .bind (.issue _ _) fun object _ he => ?_
    subst he
    refine .bind (.issue _ _) fun id _ he => ?_
    subst he
    refine .bind (h .none _ id) fun left left' hl => ?_
    refine .bind (h .none _ id) fun right right' hr => .pure ?_
    rw [rewritten_none.mp hl, rewritten_none.mp hr]
    rfl
  · refine .bind (.issue _ _) fun object _ he => ?_
    subst he
    refine .bind (.issue _ _) fun id _ he => ?_
    subst he
    refine .bind (h .none _ id) fun base base' hb => ?_
    refine .bind (h .none _ id) fun width width' hw => .pure ?_
    rw [rewritten_none.mp hb, rewritten_none.mp hw]
    rfl

private theorem visit_parallel (σ : Substitution) (form : Form) (parent : Nat) :
    Parallel (Rewritten σ) (visit recur form parent σ) (visit recur form parent .none) := by
  unfold visit
  split
  · exact .pure rfl
  · split
    · exact .pure rfl
    · exact visitOperation_parallel h σ (not_isConcat_unaryOp ‹_›) _ parent
  · exact visitOperation_parallel h σ (not_isConcat_binaryOp _) _ parent
  · exact visitEvents_parallel h σ _ _ parent
  · exact visitLiteral_parallel σ _ _ parent
  · exact visitName_parallel h σ _ parent
  · exact h σ _ parent
  · exact visitOperation_parallel h σ (not_isConcat_postOp _) _ parent
  · refine .bind (.issue _ _) fun id _ he => .pure ?_
    subst he
    rfl
  · exact visitConcat_parallel h σ (by unfold IsConcat; split <;> simp) _ parent

end Visit

private theorem lowerNode_parallel (c : Context) (σ : Substitution) (budget : Nat) (n : NodeId)
    (parent : Nat) :
    Parallel (Rewritten σ) (lowerNode c budget n parent σ) (lowerNode c budget n parent .none) := by
  induction budget generalizing σ n parent with
  | zero => exact .bind (.warn c n) fun _ _ _ => .pure rfl
  | succ budget ih =>
    refine .bind (visit_parallel ih σ _ parent) fun node node' hn => ?_
    exact .bind (.report _ _) fun _ _ _ => .pure hn

/-- Lowering over a scope gives the document of lowering without substitution, rewritten at its
references, and numbers the same nodes in the same places.  Neither run depends on where the
surroundings are kept. -/
theorem lower_substitution (c : Context) (n : NodeId) (parent : Nat) (scope : Option Scope)
    (factory : Factory) :
    let on := Frame.lower c true n parent scope factory
    let off := Frame.lower c false n parent scope factory
    Node.encode? on.node = (Node.encode? off.node).substitute (scope.getD .empty) ∧
      (Node.allOf? on.node).map Node.numbers = (Node.allOf? off.node).map Node.numbers ∧
      on.factory.issued = off.factory.issued ∧
      on = lower c n parent (.ofScope (scope.getD .empty)) factory ∧
      off = lower c n parent .none factory := by
  intro on off
  have hon : on = lower c n parent (.ofScope (scope.getD .empty)) factory := by
    rw [← Frame.substitution_true]
    exact Frame.lower_eq c true n parent scope factory
  have hoff : off = lower c n parent .none factory := Frame.lower_eq c false n parent scope factory
  obtain ⟨hn, hi⟩ := lowerNode_parallel c (.ofScope (scope.getD .empty)) c.limit n parent
    { factory } { factory } rfl
  have hnode : on.node = off.node.map (Node.substitute (.ofScope (scope.getD .empty))) := by
    rw [hon, hoff]
    exact hn
  have hissued : on.factory.issued = off.factory.issued := by
    rw [hon, hoff]
    exact hi
  rw [hnode]
  exact ⟨Node.encode?_substitute _ _, Node.allOf?_substitute _ _, hissued, hon, hoff⟩

/-- `{x, -x} + (w[x] & (x | y))` -/
def namesAround : Tree.Build NodeId := do
  let negated ← .unary .unaryMinus (← .ident ["x"])
  let joined ← .concat [← .ident ["x"], negated]
  let bit ← .bitSelect "w" (← .ident ["x"])
  let either ← .binary (← .ident ["x"]) .binOpBitwOr (← .ident ["y"])
  .binary joined .binOpPlus (← .binary bit .binOpBitwAnd either)

def namesAroundContext : Context := ⟨(namesAround ⟨"a.sv", #[]⟩).2, 10⟩

/-- Of four uses of `x` the one outside of the concatenation and the select is replaced, although
it comes after them; `y` is bound to no valid value. -/
theorem lower_substitution_namesAround :
    let scope := (Scope.empty.enter.set "x" (.signed 5)).set "y" .invalid
    let on := Frame.lower namesAroundContext true 31 0 (some scope) {}
    let off := Frame.lower namesAroundContext false 31 0 (some scope) {}
    (Node.encode? off.node).text = "(Add (Concat x (Minus x)) (BitAnd w[x] (BitOr x y)))" ∧
      (Node.encode? on.node).text = "(Add (Concat x (Minus x)) (BitAnd w[x] (BitOr INT:5 y)))" ∧
      Node.encode? on.node = (Node.encode? off.node).substitute scope ∧
      on.factory.issued = off.factory.issued := by
  intro scope on off
  obtain ⟨hdoc, _, hissued, _⟩ := lower_substitution namesAroundContext 31 0 (some scope) {}
  exact ⟨by decide +kernel, by decide +kernel, hdoc, hissued⟩

end Lower

end HdlExpr
