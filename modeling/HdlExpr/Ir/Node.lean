import HdlExpr.Ir.Opcode

/-!
# Nodes of the intermediate representation

A lowered expression is a tree of numbered nodes, each of which knows the number of its parent,
zero for none.  Numbers are given out by a factory in order, so they tell when a node was made.
-/

namespace HdlExpr.Ir

/-- The kinds of node. -/
inductive Kind where
  | operation
  | constant
  | ref
  | bitSelect
  | partSelect
  | indexedSelect
  | call
  deriving DecidableEq, Repr, Inhabited

namespace Kind

def all : List Kind :=
  [.operation, .constant, .ref, .bitSelect, .partSelect, .indexedSelect, .call]

def name : Kind → String
  | .operation => "Operation"
  | .constant => "Constant"
  | .ref => "RefObj"
  | .bitSelect => "BitSelect"
  | .partSelect => "PartSelect"
  | .indexedSelect => "IndexedPartSelect"
  | .call => "SysFuncCall"

/-- The kind with a number, if there is one. -/
def ofNumber? (n : Nat) : Option Kind := all[n]?

/-- The name of the kind with a number; a number without a kind is named by itself. -/
def numberName (n : Nat) : String :=
  match ofNumber? n with
  | some k => k.name
  | none => "Kind(" ++ toString n ++ ")"

end Kind

/-- A reference to a named object. -/
structure Ref where
  id : Nat
  parent : Nat
  name : String
  deriving DecidableEq, Repr, Inhabited

/-- A node with everything below it.  The bounds of a select may be missing.  A part select hangs
under the reference to the object that it selects from, and `fixed` says that its bounds are
constant. -/
inductive Node where
  | operation (id parent : Nat) (op : Opcode) (operands : List Node)
  | constant (id parent : Nat) (text : String)
  | ref (r : Ref)
  | bitSelect (id parent : Nat) (name : String) (index : Option Node)
  | partSelect (id : Nat) (object : Option Ref) (fixed : Bool) (left right : Option Node)
  | indexedSelect (id : Nat) (object : Option Ref) (direction : Direction) (fixed : Bool)
      (base width : Option Node)
  | call (id parent : Nat) (function : String)
  deriving Inhabited

namespace Node

def id : Node → Nat
  | .operation id .. | .constant id .. | .bitSelect id .. | .partSelect id ..
  | .indexedSelect id .. | .call id .. => id
  | .ref r => r.id

def kind : Node → Kind
  | .operation .. => .operation
  | .constant .. => .constant
  | .ref _ => .ref
  | .bitSelect .. => .bitSelect
  | .partSelect .. => .partSelect
  | .indexedSelect .. => .indexedSelect
  | .call .. => .call

def object? : Node → Option Ref
  | .partSelect _ object .. | .indexedSelect _ object .. => object
  | _ => none

/-- The number of the parent, zero for none. -/
def parent : Node → Nat
  | .operation _ parent .. | .constant _ parent _ | .bitSelect _ parent .. | .call _ parent _ =>
    parent
  | .ref r => r.parent
  | .partSelect _ object .. | .indexedSelect _ object .. => (object.map (·.id)).getD 0

/-- The operands, with gaps for missing bounds. -/
def children : Node → List (Option Node)
  | .operation _ _ _ operands => operands.map some
  | .bitSelect _ _ _ index => [index]
  | .partSelect _ _ _ left right => [left, right]
  | .indexedSelect _ _ _ _ base width => [base, width]
  | .constant .. | .ref _ | .call .. => []

mutual

/-- The node and all nodes below it, parents first. -/
def all : Node → List Node
  | .operation id parent op operands => .operation id parent op operands :: allOf operands
  | .bitSelect id parent name index => .bitSelect id parent name index :: allOf? index
  | .partSelect id object fixed left right =>
    .partSelect id object fixed left right :: (allOf? left ++ allOf? right)
  | .indexedSelect id object direction fixed base width =>
    .indexedSelect id object direction fixed base width :: (allOf? base ++ allOf? width)
  | .constant id parent text => [.constant id parent text]
  | .ref r => [.ref r]
  | .call id parent function => [.call id parent function]

def allOf : List Node → List Node
  | [] => []
  | n :: rest => n.all ++ allOf rest

def allOf? : Option Node → List Node
  | none => []
  | some n => n.all

end

end Node

/-- The kinds of the nodes made so far, the latest first. -/
structure Factory where
  made : List Kind := []
  deriving Inhabited

namespace Factory

/-- How many numbers have been given out. -/
def issued (f : Factory) : Nat := f.made.length

/-- Gives out the next number for a node of a kind. -/
def issue (f : Factory) (k : Kind) : Nat × Factory := (f.issued + 1, ⟨k :: f.made⟩)

def count (f : Factory) (k : Kind) : Nat := f.made.count k

end Factory

end HdlExpr.Ir
