import HdlExpr.Tree.Basic

/-!
# Building expressions

The shapes in which a parser delivers the common forms of expression.  Each function adds the
nodes of one form on top of operands that were added before, and gives the node that stands for
the whole.
-/

namespace HdlExpr.Tree

abbrev Build := StateM Tree

namespace Build

def leaf (tag : Tag) (symbol : String) : Build NodeId := fun t => t.leaf tag symbol

def node (tag : Tag) (children : List NodeId) : Build NodeId := fun t =>
  let added := t.node tag children
  (added.id, added.tree)

def setSymbol (n : NodeId) (symbol : String) : Build Unit := modify (·.setSymbol n symbol)

def setLocation (n : NodeId) (line column : Int) : Build Unit :=
  modify (·.setLocation n line column)

def primary (children : List NodeId) : Build NodeId := do
  node .constantExpression [← node .constantPrimary children]

def literal (tag : Tag) (text : String) : Build NodeId := do
  primary [← node .primaryLiteral [← leaf tag text]]

def scalar (tag : Tag) : Build NodeId :=
  literal tag (if tag.name.endsWith "1" then "'1" else "'0")

def null : Build NodeId := literal .nullKeyword "null"

def names (segments : List String) : Build (List NodeId) :=
  segments.mapM (leaf .stringConst)

/-- A name with one segment for each level of the hierarchy. -/
def ident (segments : List String) : Build NodeId := do
  primary (← names segments)

/-- A name whose first segment stands at a place in the source. -/
def identAt (line column : Int) (segments : List String) : Build NodeId := do
  let ids ← names segments
  if let first :: _ := ids then setLocation first line column
  primary ids

def selected (name : String) (select : NodeId) : Build NodeId := do
  primary [← leaf .stringConst name, select]

/-- `name[index]` -/
def bitSelect (name : String) (index : NodeId) : Build NodeId := do
  selected name (← node .select [← node .bitSelect [index]])

/-- `name[left:right]` -/
def partSelect (name : String) (left right : NodeId) : Build NodeId := do
  let range ← node .partSelectRange [← node .constantRange [left, right]]
  selected name (← node .select [← node .bitSelect [], range])

/-- `name[base +: width]`, or `name[base -: width]` when not `up` -/
def indexedSelect (name : String) (base : NodeId) (up : Bool) (width : NodeId) :
    Build NodeId := do
  let direction ← leaf (if up then .incPartSelectOp else .decPartSelectOp) ""
  let range ← node .partSelectRange
    [← node .constantIndexedRange [base, direction, width]]
  selected name (← node .select [range])

def binary (left : NodeId) (op : Tag) (right : NodeId) : Build NodeId := do
  node .constantExpression [left, ← leaf op "", right]

def paren (operand : NodeId) : Build NodeId := do
  primary [← node .constantMintypmaxExpression [operand]]

def unary (op : Tag) (operand : NodeId) : Build NodeId := do
  node .constantExpression [← leaf op "", operand]

def lvalue (segments : List String) : Build NodeId := do
  node .variableLvalue [← node .hierarchicalIdentifier (← names segments)]

def preStep (op : Tag) (segments : List String) : Build NodeId := do
  let op ← leaf op ""
  node .expression [← node .incOrDecExpression [op, ← lvalue segments]]

def postStep (op : Tag) (segments : List String) : Build NodeId := do
  let operand ← lvalue segments
  node .expression [← node .incOrDecExpression [operand, ← leaf op ""]]

/-- A list of events, given as operands and the operators between them. -/
def events (items : List (NodeId ⊕ Tag)) : Build NodeId := do
  let ids ← items.mapM fun item =>
    match item with
    | .inl n => pure n
    | .inr op => leaf op ""
  node .eventExpression ids

def edge (op : Tag) (signal : String) : Build NodeId := do
  let op ← leaf op ""
  let signal ← node .expression [← node .primary [← leaf .stringConst signal]]
  node .eventExpression [op, signal]

def systemCall (name : String) : Build NodeId := do
  primary [← node .systemTask [← node .systemTaskNames [← leaf .stringConst name]]]

def concat (operands : List NodeId) : Build NodeId := do
  primary [← node .concatenation operands]

def multiConcat (count : NodeId) (operands : List NodeId) : Build NodeId := do
  primary [← node .multipleConcatenation (count :: operands)]

end Build

end HdlExpr.Tree
