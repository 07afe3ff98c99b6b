import HdlExpr.Tag.Basic

/-!
# Syntax trees

The nodes of one or more syntax trees over a source file, numbered from one in the order in which
they were made.  Node zero stands for no node, and every question about a node that does not exist
has an empty answer.  Trees are built from the leaves up: a new node takes earlier nodes as its
children, and each node can be taken only once.  A node refers to its first child, and each child
to the next one.
-/

namespace HdlExpr

abbrev NodeId := Nat

/-- A place in a source file; line or column zero is left out. -/
structure Location where
  file : String
  line : Int := 0
  column : Int := 0
  deriving DecidableEq, Repr, Inhabited

/-- The file, the line if there is one, and the column if there is one too. -/
def Location.text (l : Location) : String :=
  if l.line = 0 then l.file
  else if l.column = 0 then l.file ++ ":" ++ toString l.line
  else l.file ++ ":" ++ toString l.line ++ ":" ++ toString l.column

/-- A node with its first child, the next child of its parent, and its parent; a link of zero
leads nowhere. -/
structure Tree.Node where
  tag : Tag
  symbol : String := ""
  child : NodeId := 0
  sibling : NodeId := 0
  parent : NodeId := 0
  line : Int := 0
  column : Int := 0
  deriving DecidableEq, Repr, Inhabited

/-- The nodes made so far. -/
structure Tree where
  file : String
  nodes : Array Tree.Node := #[]
  deriving Inhabited

namespace Tree

def size (t : Tree) : Nat := t.nodes.size

def node? (t : Tree) (n : NodeId) : Option Node :=
  match n with
  | 0 => none
  | i + 1 => t.nodes[i]?

def isNode (t : Tree) (n : NodeId) : Bool := (t.node? n).isSome

def tag (t : Tree) (n : NodeId) : Tag := ((t.node? n).map (·.tag)).getD .invalid

def symbol (t : Tree) (n : NodeId) : String := ((t.node? n).map (·.symbol)).getD ""

/-- The first child, zero without one. -/
def child (t : Tree) (n : NodeId) : NodeId := ((t.node? n).map (·.child)).getD 0

/-- The next child of the same parent, zero without one. -/
def sibling (t : Tree) (n : NodeId) : NodeId := ((t.node? n).map (·.sibling)).getD 0

def parent (t : Tree) (n : NodeId) : NodeId := ((t.node? n).map (·.parent)).getD 0

/-- A node and the siblings after it, at most `bound` of them. -/
def siblings (t : Tree) : Nat → NodeId → List NodeId
  | 0, _ => []
  | bound + 1, n => if n = 0 then [] else n :: siblings t bound (t.sibling n)

/-- The children in order.  No child is met twice, so there are no more of them than nodes. -/
def children (t : Tree) (n : NodeId) : List NodeId := t.siblings t.size (t.child n)

def location (t : Tree) (n : NodeId) : Location :=
  match t.node? n with
  | some x => ⟨t.file, x.line, x.column⟩
  | none => ⟨t.file, 0, 0⟩

def ids (t : Tree) : List NodeId := (List.range t.size).map (· + 1)

def roots (t : Tree) : List NodeId := t.ids.filter fun n => t.parent n = 0

/-- Changes one node, if it exists. -/
def update (t : Tree) (n : NodeId) (f : Node → Node) : Tree :=
  match n with
  | 0 => t
  | i + 1 => { t with nodes := t.nodes.modify i f }

def setSymbol (t : Tree) (n : NodeId) (symbol : String) : Tree :=
  t.update n fun x => { x with symbol }

/-- Lines and columns are kept to 32 bits. -/
def setLocation (t : Tree) (n : NodeId) (line column : Int) : Tree :=
  t.update n fun x => { x with line := line.bmod 4294967296, column := column.bmod 4294967296 }

def leaf (t : Tree) (tag : Tag) (symbol : String) : NodeId × Tree :=
  (t.size + 1, { t with nodes := t.nodes.push { tag, symbol } })

/-- A child that could not be linked because it has a parent already. -/
structure LinkFault where
  parent : Tag
  child : Tag
  deriving DecidableEq, Repr

def LinkFault.message (f : LinkFault) : String :=
  "syntax: node " ++ f.parent.name ++ " links child " ++ f.child.name ++
    " that already has a parent"

/-- Hangs `c` under `id`: behind `last`, or as the first child when `last` is zero. -/
def attach (t : Tree) (id last c : NodeId) : Tree :=
  let t := t.update c fun x => { x with parent := id }
  if last = 0 then t.update id fun x => { x with child := c }
  else t.update last fun x => { x with sibling := c }

/-- Hangs the candidates that exist under `id`, behind `last`, up to the first that has a parent
or is `id` itself. -/
def link (id : NodeId) : Tree → NodeId → List NodeId → Tree × Option LinkFault
  | t, _, [] => (t, none)
  | t, last, c :: rest =>
    match t.node? c with
    | none => link id t last rest
    | some x =>
      if x.parent ≠ 0 ∨ c = id then (t, some ⟨t.tag id, x.tag⟩)
      else link id (t.attach id last c) c rest

/-- What adding a node with children gives: its number, the tree, and the fault that stopped the
linking. -/
structure Added where
  id : NodeId
  tree : Tree
  fault : Option LinkFault

/-- Adds a node with the given children; numbers of no node are skipped.  The node and the links
before a fault stay. -/
def node (t : Tree) (tag : Tag) (children : List NodeId) : Added :=
  let (id, t) := t.leaf tag ""
  let (tree, fault) := link id t 0 children
  { id, tree, fault }

end Tree

end HdlExpr
