import HdlExpr.Ir.Operation
import HdlExpr.Report
import HdlExpr.Scope.Basic

/-!
# Folding

An expression is folded to a value over a scope.  Names are read from the scope, and steps write
to it.  A name that is not bound gives the invalid value and one complaint.  Folding never fails:
what has no constant value, such as an event or a call, is invalid, and so is what nests too
deeply.
-/

namespace HdlExpr.Fold

/-- What stays the same during one evaluation. -/
structure Context where
  tree : Tree
  /-- Whether unresolved names go unreported. -/
  mute : Bool := false
  limit : Nat := 1000

/-- What changes. -/
structure State where
  scope : Scope
  reports : Array Report := #[]
  /-- Whether it was reported that the expression nests too deeply. -/
  warned : Bool := false

abbrev Run := StateM State

/-- A value, and the cell that it was read from. -/
structure Operand where
  value : Value
  slot : Option Nat := none

def Operand.absent : Operand := ⟨Value.invalid, none⟩

def report (r : Report) : Run Unit := modify fun s => { s with reports := s.reports.push r }

/-- Reports an expression that nests too deeply, the first time only. -/
def warn (c : Context) (n : NodeId) : Run Unit := do
  unless (← get).warned do
    report (.tooDeepToFold c.limit (c.tree.location n))
    modify fun s => { s with warned := true }

/-- Writes a stepped value back to the cell of its operand. -/
def storeStep (slot : Option Nat) (v : Value) : Run Unit :=
  match slot with
  | some slot => if v.isValid then modify fun s => { s with scope := s.scope.store slot v }
    else pure ()
  | none => pure ()

/-- Reports a name without a binding. -/
def unresolved (c : Context) (site : NodeId) (name : String) : Run Unit := do
  unless c.mute do
    report (.unresolved ⟨name, c.tree.location site, (← get).scope.names⟩)

/-- The bits of a bound, which has to be an integer. -/
def boundOf (v : Value) : Option Word :=
  match v.datum with
  | .integer i => some i.word
  | _ => none

/-- The bits `base +: width` or `base -: width`, computed in 64-bit arithmetic. -/
def indexedSlice (v : Value) (direction : Tag) (base width : Word) : Value :=
  if width.toInt < 1 then .invalid
  else match direction.direction? with
    | some .down => v.slice base.toInt (base - width + 1).toInt
    | some _ => v.slice (base + width - 1).toInt base.toInt
    | none => .invalid

/-! Nodes are visited in any monad that runs can be lifted to, so that whoever folds the operands
may keep a state of its own. -/

section Visit

variable {m : Type → Type} [Monad m] [MonadLiftT Run m] (c : Context) (recur : NodeId → m Operand)

/-- Applies a select, whose bounds are folded from left to right, to a value. -/
def visitSelect (v : Value) : Select → m Value
  | .none => pure v
  | .bit index => do
    let i := boundOf (← recur index).value
    pure <| match i with
      | some i => v.slice i.toInt i.toInt
      | none => .invalid
  | .part left right => do
    let hi := boundOf (← recur left).value
    let lo := boundOf (← recur right).value
    pure <| match hi, lo with
      | some hi, some lo => v.slice hi.toInt lo.toInt
      | _, _ => .invalid
  | .indexed base direction width => do
    let b := boundOf (← recur base).value
    let w := boundOf (← recur width).value
    pure <| match b, w with
      | some b, some w => indexedSlice v direction b w
      | _, _ => .invalid

/-- A name without a select keeps its cell, so that it can be stepped. -/
def visitName (site : NodeId) (ident : Ident) : m Operand := do
  match (← (get : Run State)).scope.lookup ident.name with
  | none =>
    unresolved c site ident.name
    pure .absent
  | some slot =>
    let v := (← (get : Run State)).scope.load slot
    match ident.select with
    | .none =>
      match v.datum with
      | .text _ => pure ⟨v, some slot⟩
      | _ => pure ⟨v.plus, some slot⟩
    | select => pure ⟨← visitSelect recur v select, none⟩

/-- Edges are not folded, and their operands not visited. -/
def visitUnary (op : Tag) (operand : NodeId) : m Operand :=
  match op.unaryOp? with
  | none | some .posedge | some .negedge => pure .absent
  | some code => do
    let x ← recur operand
    match code.step?, code.unary? with
    | some (step, _), _ => do
      let v := step x.value
      storeStep x.slot v
      pure ⟨v.asRvalue, none⟩
    | none, some f => pure ⟨f x.value, none⟩
    | none, none => pure .absent

/-- Without an operator that can be folded the left operand stands for the whole. -/
def visitBinary (left : NodeId) (op : Tag) (right : NodeId) : m Operand := do
  let x ← recur left
  match op.binaryOp?.bind Ir.Opcode.binary? with
  | none => pure ⟨x.value, none⟩
  | some f => do
    let y ← recur right
    pure ⟨f x.value y.value, none⟩

/-- A step behind its operand gives the value before the step. -/
def visitLvalue (operand : NodeId) (op : Option Tag) : m Operand := do
  let x ← recur operand
  match op with
  | none => pure x
  | some op =>
    match op.postOp?.bind Ir.Opcode.step? with
    | none => pure ⟨x.value, none⟩
    | some (step, _) => do
      storeStep x.slot (step x.value)
      pure ⟨x.value.asRvalue, none⟩

def visit (form : Form) : m Operand :=
  match form.shape with
  | .unary op operand => visitUnary recur op operand
  | .binary left op right => visitBinary recur left op right
  | .literal tag text => pure ⟨(tag.literalValue? text).getD .invalid, none⟩
  | .name ident => visitName c recur form.site ident
  | .lvalue operand op => visitLvalue recur operand op
  | .empty | .events .. | .call _ | .concat .. => pure .absent

end Visit

/-- Folds a node whose operands may nest `budget` deep, the node itself included. -/
def fold (c : Context) : Nat → NodeId → Run Operand
  | 0, n => do
    warn c n
    pure .absent
  | budget + 1, n => do
    let form := Form.decode c.tree n
    let x ← visit c (fold c budget) form
    report (.folded form.shape (c.tree.location form.site) x.value)
    pure x

/-- The value of an expression, the scope after it, and what was reported. -/
structure Outcome where
  value : Value
  scope : Scope
  reports : List Report

def evaluate (c : Context) (n : NodeId) (scope : Scope) : Outcome :=
  let (x, s) := (fold c c.limit n).run { scope }
  ⟨x.value, s.scope, s.reports.toList⟩

end HdlExpr.Fold
