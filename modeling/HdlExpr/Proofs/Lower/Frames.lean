import Mathlib.Data.Option.Basic
import HdlExpr.Proofs.Visiting

/-!
# One place for the surroundings

A node is lowered under a parent and with a scope.  Both may be arguments of every call, or they
may be kept in one place: a call then saves what it finds there, puts its own parent and scope in
its place, and restores what it saved.  A visit reads them whenever it needs them, also after an
operand was lowered.  The two ways agree, and whoever calls finds its own surroundings again.
-/

namespace HdlExpr.Lower

open Ir (Node Opcode Ref Factory)

/-- What surrounds the node that is visited; selects and concatenations leave their operands
without a scope. -/
structure Frame where
  parent : Nat := 0
  scope : Option Scope := none

namespace Frame

/-- The value of a name, if it is bound to a valid one and values replace names. -/
def value? (f : Frame) (substitute : Bool) (name : String) : Option Value := do
  guard substitute
  let scope ← f.scope
  let slot ← scope.lookup name
  guard (scope.load slot).isValid
  pure (scope.load slot)

abbrev Run := StateT Frame Lower.Run

section Visit

variable (substitute : Bool) (recur : NodeId → Nat → Option Scope → Run (Option Node))

/-- Lowers operands in order, each with the scope that is found when its turn comes. -/
def visitOperands (scope : Frame → Option Scope) (parent : Nat) : List NodeId → Run (List Node)
  | [] => pure []
  | n :: rest => do
    let first ← recur n parent (scope (← get))
    let others ← visitOperands scope parent rest
    pure (first.toList ++ others)

def visitOperation (scope : Frame → Option Scope) (op : Opcode) (operands : List NodeId) :
    Run (Option Node) := do
  let parent := (← get).parent
  let id ← issue .operation
  pure (some (.operation id parent op (← visitOperands recur scope id operands)))

/-- Passes the surroundings on. -/
def visitWithin (n : NodeId) : Run (Option Node) := do
  let f ← get
  recur n f.parent f.scope

def visitPlainName (name : String) : Run (Option Node) := do
  let f ← get
  match f.value? substitute name with
  | some v => do
    report (.substituted name v)
    pure (some (.constant (← issue .constant) f.parent v.encode))
  | none => do pure (some (.ref ⟨← issue .ref, f.parent, name⟩))

def visitName (ident : Ident) : Run (Option Node) :=
  match ident.select with
  | .none => visitPlainName substitute ident.name
  | .bit index => do
    let parent := (← get).parent
    let id ← issue .bitSelect
    pure (some (.bitSelect id parent ident.name (← recur index id none)))
  | .part left right => do
    let parent := (← get).parent
    let object : Ref := ⟨← issue .ref, parent, ident.name⟩
    let id ← issue .partSelect
    let left ← recur left id none
    let right ← recur right id none
    pure (some (.partSelect id (some object) true left right))
  | .indexed base direction width => do
    let parent := (← get).parent
    let object : Ref := ⟨← issue .ref, parent, ident.name⟩
    let id ← issue .indexedSelect
    let base ← recur base id none
    let width ← recur width id none
    pure (some (.indexedSelect id (some object) (direction.direction?.getD .down) true base width))

def visit (form : Form) : Run (Option Node) :=
  match form.shape with
  | .empty => pure none
  | .unary op operand =>
    match op.unaryOp? with
    | none => pure none
    | some code => visitOperation recur scope code [operand]
  | .binary left op right => visitOperation recur scope (op.binaryOp?.getD .null) [left, right]
  | .events first [] => visitWithin recur first
  | .events first (item :: rest) =>
    visitOperation recur scope (lastCombinator (item :: rest))
      (first :: (item :: rest).map (·.2))
  | .literal tag text => do visitLiteral tag text (← get).parent
  | .name ident => visitName substitute recur ident
  | .lvalue operand none => visitWithin recur operand
  | .lvalue operand (some op) => visitOperation recur scope (op.postOp?.getD .null) [operand]
  | .call function => do
    let parent := (← get).parent
    pure (some (.call (← issue .call) parent function))
  | .concat tag operands =>
    let op := if tag = .multipleConcatenation then .multiConcat else .concat
    visitOperation recur (fun _ => none) op operands

end Visit

/-- Puts a frame in the place of the one that is found, and restores that one. -/
def inside {α : Type} (f : Frame) (x : Run α) : Run α := do
  let saved ← get
  set f
  let a ← x
  set saved
  pure a

/-- Lowers a node whose operands may nest `budget` deep. -/
def lowerNode (c : Context) (substitute : Bool) :
    Nat → NodeId → Nat → Option Scope → Run (Option Node)
  | 0, n, _, _ => do
    warn c n
    pure none
  | budget + 1, n, parent, scope => do
    let form := Form.decode c.tree n
    let node ← inside ⟨parent, scope⟩ (visit substitute (lowerNode c substitute budget) form)
    report (.lowered form.shape (c.tree.location form.site) (node.map (·.kind)))
    pure node

/-- Lowers the expression at a node; the frame is empty at first. -/
def lower (c : Context) (substitute : Bool) (n : NodeId) (parent : Nat) (scope : Option Scope)
    (factory : Factory) : Outcome :=
  let ((node, _), s) := lowerNode c substitute c.limit n parent scope {} { factory }
  ⟨node, s.factory, s.reports.toList⟩

/-! ## The surroundings as arguments -/

/-- The substitution of a scope, if there is one and values replace names. -/
def substitution (substitute : Bool) (scope : Option Scope) : Substitution := fun name =>
  Frame.value? { scope } substitute name

private theorem value?_eq (f : Frame) (substitute : Bool) (name : String) :
    f.value? substitute name = substitution substitute f.scope name := rfl

private theorem substitution_absent (substitute : Bool) : substitution substitute none = .none := by
  cases substitute <;> rfl

theorem substitution_true (scope : Option Scope) :
    substitution true scope = .ofScope (scope.getD .empty) := by
  funext name
  cases scope with
  | none => rfl
  | some scope =>
    cases hslot : scope.lookup name with
    | none => simp [substitution, value?, Substitution.ofScope, Scope.get?, hslot]
    | some slot =>
      cases hvalid : (scope.load slot).isValid <;>
        simp [substitution, value?, Substitution.ofScope, Scope.get?, hslot, hvalid, guard,
          Option.filter]

section Visit

variable {substitute : Bool} {recur : NodeId → Nat → Option Scope → Run (Option Node)}
  {recur' : NodeId → Nat → Substitution → Lower.Run (Option Node)} (f : Frame)

theorem Returns.get_bind {α : Type} {k : Frame → Run α} {y : Lower.Run α}
    (h : Returns f (k f) y) : Returns f (get >>= k) y := h

private theorem visitPlainName_returns (name : String) :
    Returns f (visitPlainName substitute name)
      (Lower.visitPlainName name f.parent (substitution substitute f.scope)) := by
  have hcongr := congruence_returns State f
  refine Returns.get_bind f ?_
  rw [value?_eq, Lower.visitPlainName]
  cases substitution substitute f.scope name with
  | some v =>
    refine hcongr.bind (returns_lift _) fun _ => ?_
    exact hcongr.bind (returns_lift _) fun _ => hcongr.pure _
  | none => exact hcongr.bind (returns_lift _) fun _ => hcongr.pure _

variable (hrec : ∀ n parent scope,
  Returns f (recur n parent scope) (recur' n parent (substitution substitute scope)))

include hrec

private theorem visitOperands_returns (scope : Frame → Option Scope) (parent : Nat)
    (ns : List NodeId) : Returns f (visitOperands recur scope parent ns)
      (Lower.visitOperands recur' parent (substitution substitute (scope f)) ns) := by
  have hcongr := congruence_returns State f
  induction ns with
  | nil => exact hcongr.pure _
  | cons n ns ih =>
    refine Returns.get_bind f (hcongr.bind (hrec n parent _) fun first => ?_)
    exact hcongr.bind ih fun others => hcongr.pure _

private theorem visitOperation_returns (scope : Frame → Option Scope) (op : Opcode)
    (ns : List NodeId) :
    Returns f (visitOperation recur scope op ns)
      (Lower.visitOperation recur' op ns f.parent (substitution substitute (scope f))) := by
  have hcongr := congruence_returns State f
  refine Returns.get_bind f (hcongr.bind (returns_lift _) fun id => ?_)
  exact hcongr.bind (visitOperands_returns f hrec scope id ns) fun _ => hcongr.pure _

private theorem visitName_returns (ident : Ident) :
    Returns f (visitName substitute recur ident)
      (Lower.visitName recur' ident f.parent (substitution substitute f.scope)) := by
  have hcongr := congruence_returns State f
  have hrec' (n : NodeId) (parent : Nat) :
      Returns f (recur n parent none) (recur' n parent .none) :=
    substitution_absent substitute ▸ hrec n parent none
  unfold visitName Lower.visitName
  cases ident.select with
  | none => exact visitPlainName_returns f ident.name
  | bit index =>
    refine Returns.get_bind f (hcongr.bind (returns_lift _) fun id => ?_)
    exact hcongr.bind (hrec' index id) fun _ => hcongr.pure _
  | part left right =>
    refine Returns.get_bind f (hcongr.bind (returns_lift _) fun object => ?_)
    refine hcongr.bind (returns_lift _) fun id => ?_
    refine hcongr.bind (hrec' left id) fun _ => ?_
    exact hcongr.bind (hrec' right id) fun _ => hcongr.pure _
  | indexed base direction width =>
    refine Returns.get_bind f (hcongr.bind (returns_lift _) fun object => ?_)
    refine hcongr.bind (returns_lift _) fun id => ?_
    refine hcongr.bind (hrec' base id) fun _ => ?_
    exact hcongr.bind (hrec' width id) fun _ => hcongr.pure _

private theorem visit_returns (form : Form) :
    Returns f (visit substitute recur form)
      (Lower.visit recur' form f.parent (substitution substitute f.scope)) := by
  have hcongr := congruence_returns State f
  obtain ⟨node, site, shape⟩ := form
  cases shape with
  | empty => exact hcongr.pure _
  | unary op operand =>
    simp only [visit, Lower.visit]
    cases op.unaryOp? with
    | none => exact hcongr.pure _
    | some code => exact visitOperation_returns f hrec Frame.scope _ _
  | binary left op right => exact visitOperation_returns f hrec Frame.scope _ _
  | events first rest =>
    cases rest with
    | nil => exact Returns.get_bind f (hrec first _ _)
    | cons item rest => exact visitOperation_returns f hrec Frame.scope _ _
  | literal tag text => exact Returns.get_bind f (returns_lift _)
  | name ident => exact visitName_returns f hrec ident
  | lvalue operand op =>
    cases op with
    | none => exact Returns.get_bind f (hrec operand _ _)
    | some op => exact visitOperation_returns f hrec Frame.scope _ _
  | call function =>
    exact Returns.get_bind f (hcongr.bind (returns_lift _) fun _ => hcongr.pure _)
  | concat tag operands =>
    have h := visitOperation_returns f hrec (fun _ => none)
      (if tag = .multipleConcatenation then .multiConcat else .concat) operands
    rwa [substitution_absent] at h

end Visit

/-- What runs inside another frame gives back the frame around it. -/
theorem inside_returns {α : Type} {f g : Frame} {x : Run α} {y : Lower.Run α}
    (h : Returns g x y) : Returns f (inside g x) y := by
  intro s
  have hinside : inside g x f s = (((x g s).1.1, f), (x g s).2) := rfl
  rw [hinside, h s]

private theorem lowerNode_returns (c : Context) (substitute : Bool) (budget : Nat) (f : Frame)
    (n : NodeId) (parent : Nat) (scope : Option Scope) :
    Returns f (lowerNode c substitute budget n parent scope)
      (Lower.lowerNode c budget n parent (substitution substitute scope)) := by
  have hcongr := congruence_returns State f
  induction budget generalizing f n parent scope with
  | zero => exact hcongr.bind (returns_lift _) fun _ => hcongr.pure _
  | succ budget ih =>
    have hvisit := visit_returns ⟨parent, scope⟩
      (fun n parent scope => ih ⟨_, _⟩ n parent scope (congruence_returns State _))
      (Form.decode c.tree n)
    refine hcongr.bind (inside_returns hvisit) fun node => ?_
    exact hcongr.bind (returns_lift _) fun _ => hcongr.pure node

/-- Saving and restoring the surroundings is lowering with the surroundings as arguments. -/
theorem lower_eq (c : Context) (substitute : Bool) (n : NodeId) (parent : Nat)
    (scope : Option Scope) (factory : Factory) :
    lower c substitute n parent scope factory =
      Lower.lower c n parent (substitution substitute scope) factory := by
  have h := lowerNode_returns c substitute c.limit {} n parent scope { factory }
  rw [lower, h]
  rfl

end Frame

end HdlExpr.Lower
