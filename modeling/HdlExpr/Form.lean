import HdlExpr.Tag.Role
import HdlExpr.Tree.Basic

/-!
# Forms of expressions

What an expression node says, read off its first child.  Wrappers, and operands that no operator
follows, are skipped, so a form describes the innermost node with content.
-/

namespace HdlExpr

/-- The select behind a name. -/
inductive Select where
  | none
  | bit (index : NodeId)
  | part (left right : NodeId)
  | indexed (base : NodeId) (direction : Tag) (width : NodeId)
  deriving DecidableEq, Repr

/-- A name, one segment for each level of the hierarchy, with the select behind it. -/
structure Ident where
  segments : List String
  select : Select
  deriving DecidableEq, Repr

def Ident.name (i : Ident) : String := ".".intercalate i.segments

/-- The content of an expression node. -/
inductive Shape where
  /-- Nothing that can be expressed. -/
  | empty
  /-- An operator before its operand. -/
  | unary (op : Tag) (operand : NodeId)
  | binary (left : NodeId) (op : Tag) (right : NodeId)
  /-- Events, each but the first with the operator before it. -/
  | events (first : NodeId) (rest : List (Tag × NodeId))
  | literal (tag : Tag) (text : String)
  | name (ident : Ident)
  /-- An assignable operand, perhaps with a step behind it. -/
  | lvalue (operand : NodeId) (op : Option Tag)
  /-- A call of a system function. -/
  | call (function : String)
  | concat (tag : Tag) (operands : List NodeId)
  deriving DecidableEq, Repr

def Shape.title : Shape → String
  | .empty => "empty"
  | .unary .. => "unary"
  | .binary .. => "binary"
  | .events .. => "events"
  | .literal .. => "literal"
  | .name .. => "name"
  | .lvalue .. => "postfix"
  | .call .. => "syscall"
  | .concat .. => "concat"

/-- The content found at `node`; the source shows it at `site`. -/
structure Form where
  node : NodeId
  site : NodeId
  shape : Shape
  deriving DecidableEq, Repr

namespace Form

/-- A node without children is what its own tag says. -/
def ofLeaf (t : Tree) (n : NodeId) : Form :=
  let tag := t.tag n
  if tag = .stringConst then ⟨n, n, .name ⟨[t.symbol n], .none⟩⟩
  else if tag.isLiteral then ⟨n, n, .literal tag (t.symbol n)⟩
  else ⟨n, n, .empty⟩

/-- The operands after the first one, each with the operator before it.  A list that ends in an
operator has node zero as its last operand, and whatever is no operator ends the list. -/
def eventList (t : Tree) : List NodeId → List (Tag × NodeId)
  | op :: operand :: rest =>
    if (t.tag op).combinator?.isSome then (t.tag op, operand) :: eventList t rest else []
  | [op] => if (t.tag op).combinator?.isSome then [(t.tag op, 0)] else []
  | [] => []

/-- The `i`-th of some nodes, zero when there are fewer. -/
def nth (ns : List NodeId) (i : Nat) : NodeId := (ns[i]?).getD 0

/-- The select that one clause gives; a bit select without an index gives none. -/
def clause? (t : Tree) (n : NodeId) : Option Select :=
  match t.tag n with
  | .bitSelect => (t.children n).head?.map .bit
  | .partSelectRange =>
    let range := t.child n
    let bounds := t.children range
    if t.tag range = .constantRange then some (.part (nth bounds 0) (nth bounds 1))
    else some (.indexed (nth bounds 0) (t.tag (nth bounds 1)) (nth bounds 2))
  | _ => none

def select? (t : Tree) (n : NodeId) : Option Select := (t.children n).findSome? (clause? t)

/-- The further segments of a name up to the first usable select. -/
def segments (t : Tree) : List NodeId → List String × Select
  | [] => ([], .none)
  | n :: rest =>
    match t.tag n with
    | .stringConst =>
      let (more, select) := segments t rest
      (t.symbol n :: more, select)
    | .select =>
      match select? t n with
      | some select => ([], select)
      | none => segments t rest
    | _ => segments t rest

/-- The name that starts at `first` and goes on over the nodes after it. -/
def ident (t : Tree) (first : NodeId) (rest : List NodeId) : Ident :=
  let (more, select) := segments t rest
  ⟨t.symbol first :: more, select⟩

/-- The content of `node`, whose children are `child` and `rest`, when `child` is no wrapper. -/
def content (t : Tree) (child : NodeId) (rest : List NodeId) : NodeId × Shape :=
  let tag := t.tag child
  if tag.isOperandChain then
    (nth rest 0, .binary child (t.tag (nth rest 0)) (nth rest 1))
  else if tag.unaryOp?.isSome then (child, .unary tag (nth rest 0))
  else if tag.isLiteral then (child, .literal tag (t.symbol child))
  else match tag with
    | .eventExpression => (child, .events child (eventList t rest))
    | .stringConst => (child, .name (ident t child rest))
    | .variableLvalue =>
      let op := t.tag (nth rest 0)
      (child, .lvalue child (if op.postOp?.isSome then some op else none))
    | .systemTaskNames => (child, .call (t.symbol (t.child child)))
    | .concatenation | .multipleConcatenation => (child, .concat tag (t.children child))
    | _ => (child, .empty)

/-- Whether the content of a node is that of its first child. -/
def isSkipped (t : Tree) (child : NodeId) (rest : List NodeId) : Bool :=
  (t.tag child).isWrapper || ((t.tag child).isOperandChain && rest.isEmpty)

/-- The form of a node.  Children are numbered below their parents, which bounds the descent
through wrappers. -/
def decode (t : Tree) (n : NodeId) : Form :=
  if t.isNode n then
    match t.children n with
    | [] => ofLeaf t n
    | child :: rest =>
      if isSkipped t child rest then
        if child < n then decode t child else ⟨n, child, .empty⟩
      else
        let (site, shape) := content t child rest
        ⟨n, site, shape⟩
  else ⟨n, 0, .empty⟩
termination_by n

end Form

end HdlExpr
