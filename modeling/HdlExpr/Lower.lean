import HdlExpr.Ir.Node
import HdlExpr.Report
import HdlExpr.Scope.Basic

/-!
# Lowering

An expression is lowered to a tree of the intermediate representation.  Names may be replaced by
constants on the way; inside selects and concatenations they never are.  What says nothing is
lowered to nothing, and so is what nests too deeply.
-/

namespace HdlExpr.Lower

open Ir (Node Kind Opcode Direction Ref Factory)

/-- What stays the same during one lowering. -/
structure Context where
  tree : Tree
  limit : Nat := 1000

/-- What changes. -/
structure State where
  factory : Factory
  reports : Array Report := #[]
  /-- Whether it was reported that the expression nests too deeply. -/
  warned : Bool := false

abbrev Run := StateM State

/-- The values that replace names. -/
abbrev Substitution := String → Option Value

/-- Replaces nothing. -/
def Substitution.none : Substitution := fun _ => Option.none

/-- Replaces the names that a scope binds to valid values. -/
def Substitution.ofScope (s : Scope) : Substitution := fun name =>
  (s.get? name).filter (·.isValid)

def report (r : Report) : Run Unit := modify fun s => { s with reports := s.reports.push r }

/-- Reports an expression that nests too deeply, the first time only. -/
def warn (c : Context) (n : NodeId) : Run Unit := do
  unless (← get).warned do
    report (.tooDeepToLower c.limit (c.tree.location n))
    modify fun s => { s with warned := true }

/-- The number of a new node. -/
def issue (k : Kind) : Run Nat := fun s =>
  let (id, factory) := s.factory.issue k
  (id, { s with factory })

/-! Nodes are visited in any monad that runs can be lifted to, so that whoever lowers the operands
may keep a state of its own. -/

section Visit

variable {m : Type → Type} [Monad m] [MonadLiftT Run m]
  (recur : NodeId → Nat → Substitution → m (Option Node))

/-- Lowers operands in order and keeps those that say something. -/
def visitOperands (parent : Nat) (σ : Substitution) : List NodeId → m (List Node)
  | [] => pure []
  | n :: rest => do
    let first ← recur n parent σ
    let others ← visitOperands parent σ rest
    pure (first.toList ++ others)

def visitOperation (op : Opcode) (operands : List NodeId) (parent : Nat) (σ : Substitution) :
    m (Option Node) := do
  let id ← issue .operation
  pure (some (.operation id parent op (← visitOperands recur id σ operands)))

/-- The operation of the last operator in a list of events. -/
def lastCombinator (rest : List (Tag × NodeId)) : Opcode :=
  rest.foldl (fun op item => item.1.combinator?.getD op) .null

/-- A lone event is itself; several are joined by one operation. -/
def visitEvents (first : NodeId) (rest : List (Tag × NodeId)) (parent : Nat)
    (σ : Substitution) : m (Option Node) :=
  match rest with
  | [] => recur first parent σ
  | _ => visitOperation recur (lastCombinator rest) (first :: rest.map (·.2)) parent σ

def visitLiteral (tag : Tag) (text : String) (parent : Nat) : Run (Option Node) :=
  match tag.literalText? text with
  | none => pure none
  | some text => do pure (some (.constant (← issue .constant) parent text))

/-- A name without a select, or the constant that replaces it. -/
def visitPlainName (name : String) (parent : Nat) (σ : Substitution) : Run (Option Node) :=
  match σ name with
  | some v => do
    report (.substituted name v)
    pure (some (.constant (← issue .constant) parent v.encode))
  | none => do pure (some (.ref ⟨← issue .ref, parent, name⟩))

def visitName (ident : Ident) (parent : Nat) (σ : Substitution) : m (Option Node) :=
  match ident.select with
  | .none => visitPlainName ident.name parent σ
  | .bit index => do
    let id ← issue .bitSelect
    pure (some (.bitSelect id parent ident.name (← recur index id .none)))
  | .part left right => do
    let object : Ref := ⟨← issue .ref, parent, ident.name⟩
    let id ← issue .partSelect
    let left ← recur left id .none
    let right ← recur right id .none
    pure (some (.partSelect id (some object) true left right))
  | .indexed base direction width => do
    let object : Ref := ⟨← issue .ref, parent, ident.name⟩
    let id ← issue .indexedSelect
    let base ← recur base id .none
    let width ← recur width id .none
    pure (some (.indexedSelect id (some object) (direction.direction?.getD .down) true base width))

def visit (form : Form) (parent : Nat) (σ : Substitution) : m (Option Node) :=
  match form.shape with
  | .empty => pure none
  | .unary op operand =>
    match op.unaryOp? with
    | none => pure none
    | some code => visitOperation recur code [operand] parent σ
  | .binary left op right =>
    visitOperation recur (op.binaryOp?.getD .null) [left, right] parent σ
  | .events first rest => visitEvents recur first rest parent σ
  | .literal tag text => visitLiteral tag text parent
  | .name ident => visitName recur ident parent σ
  | .lvalue operand none => recur operand parent σ
  | .lvalue operand (some op) =>
    visitOperation recur (op.postOp?.getD .null) [operand] parent σ
  | .call function => do pure (some (.call (← issue .call) parent function))
  | .concat tag operands =>
    let op := if tag = .multipleConcatenation then .multiConcat else .concat
    visitOperation recur op operands parent .none

end Visit

/-- Lowers a node whose operands may nest `budget` deep, the node itself included. -/
def lowerNode (c : Context) : Nat → NodeId → Nat → Substitution → Run (Option Node)
  | 0, n, _, _ => do
    warn c n
    pure none
  | budget + 1, n, parent, σ => do
    let form := Form.decode c.tree n
    let node ← visit (lowerNode c budget) form parent σ
    report (.lowered form.shape (c.tree.location form.site) (node.map (·.kind)))
    pure node

/-- The lowered expression, the factory after it, and what was reported. -/
structure Outcome where
  node : Option Node
  factory : Factory
  reports : List Report

def lower (c : Context) (n : NodeId) (parent : Nat) (σ : Substitution) (factory : Factory) :
    Outcome :=
  let (node, s) := (lowerNode c c.limit n parent σ).run { factory }
  ⟨node, s.factory, s.reports.toList⟩

end HdlExpr.Lower
