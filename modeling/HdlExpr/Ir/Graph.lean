import HdlExpr.Ir.Node

/-!
# Graphs of nodes

Nodes made one at a time and put together afterwards.  Entries refer to each other by number, and
an operation may still be given operands after others refer to it.
-/

namespace HdlExpr.Ir

/-- The content of a node, with its operands by number. -/
inductive Graph.Content where
  | operation (op : Opcode) (operands : List Nat)
  | constant (text : String)
  | ref (name : String)
  | bitSelect (name : String) (index : Option Nat)
  | partSelect (fixed : Bool) (left right : Option Nat)
  | indexedSelect (direction : Direction) (fixed : Bool) (base width : Option Nat)
  | call (function : String)
  deriving Inhabited

structure Graph.Entry where
  parent : Nat
  content : Graph.Content
  deriving Inhabited

/-- The entries, numbered from one. -/
structure Graph where
  entries : Array Graph.Entry := #[]
  deriving Inhabited

namespace Graph

def Content.kind : Content → Kind
  | .operation .. => .operation
  | .constant _ => .constant
  | .ref _ => .ref
  | .bitSelect .. => .bitSelect
  | .partSelect .. => .partSelect
  | .indexedSelect .. => .indexedSelect
  | .call _ => .call

def entry? (g : Graph) (id : Nat) : Option Entry :=
  match id with
  | 0 => none
  | i + 1 => g.entries[i]?

/-- Adds an entry and gives its number. -/
def add (g : Graph) (parent : Nat) (content : Content) : Nat × Graph :=
  (g.entries.size + 1, ⟨g.entries.push ⟨parent, content⟩⟩)

def setContent (g : Graph) (id : Nat) (content : Content) : Graph :=
  match id with
  | 0 => g
  | i + 1 => ⟨g.entries.modify i fun e => { e with content }⟩

/-- Adds operands at the end of an operation. -/
def append (g : Graph) (id : Nat) (more : List Nat) : Graph :=
  match g.entry? id with
  | some ⟨_, .operation op operands⟩ => g.setContent id (.operation op (operands ++ more))
  | _ => g

def count (g : Graph) (k : Kind) : Nat := (g.entries.toList.map (·.content.kind)).count k

/-- The reference with a number. -/
def ref? (g : Graph) (id : Nat) : Option Ref :=
  match g.entry? id with
  | some ⟨parent, .ref name⟩ => some ⟨id, parent, name⟩
  | _ => none

/-- A bit select whose index is a constant made inside it. -/
def addBitSelect (g : Graph) (parent : Nat) (name : String) (index : Option String) :
    Nat × Graph :=
  let (id, g) := g.add parent (.bitSelect name none)
  match index with
  | none => (id, g)
  | some text =>
    let (i, g) := g.add id (.constant text)
    (id, g.setContent id (.bitSelect name (some i)))

/-- The bounds of a select: constants made inside it, the left one first. -/
def addBounds (g : Graph) (id : Nat) (left right : Option String) :
    Option Nat × Option Nat × Graph :=
  let bound (text : Option String) (g : Graph) : Option Nat × Graph :=
    match text with
    | none => (none, g)
    | some text => let (i, g) := g.add id (.constant text); (some i, g)
  let (l, g) := bound left g
  let (r, g) := bound right g
  (l, r, g)

/-- A part select under a reference; any other parent does not count. -/
def addPartSelect (g : Graph) (object : Nat) (fixed : Bool) (left right : Option String) :
    Nat × Graph :=
  let parent := ((g.ref? object).map (·.id)).getD 0
  let (id, g) := g.add parent (.partSelect fixed none none)
  let (l, r, g) := g.addBounds id left right
  (id, g.setContent id (.partSelect fixed l r))

/-- An indexed select under a reference; any other parent does not count. -/
def addIndexedSelect (g : Graph) (object : Nat) (direction : Direction) (fixed : Bool)
    (base width : Option String) : Nat × Graph :=
  let parent := ((g.ref? object).map (·.id)).getD 0
  let (id, g) := g.add parent (.indexedSelect direction fixed none none)
  let (b, w, g) := g.addBounds id base width
  (id, g.setContent id (.indexedSelect direction fixed b w))

/-- The tree below an entry, followed `depth` levels down. -/
def treeTo (g : Graph) : Nat → Nat → Option Node
  | 0, _ => none
  | depth + 1, id =>
    (g.entry? id).map fun entry =>
      let sub := fun (i : Option Nat) => i.bind (treeTo g depth)
      match entry.content with
      | .operation op operands =>
        .operation id entry.parent op (operands.filterMap (treeTo g depth))
      | .constant text => .constant id entry.parent text
      | .ref name => .ref ⟨id, entry.parent, name⟩
      | .bitSelect name index => .bitSelect id entry.parent name (sub index)
      | .partSelect fixed left right =>
        .partSelect id (g.ref? entry.parent) fixed (sub left) (sub right)
      | .indexedSelect direction fixed base width =>
        .indexedSelect id (g.ref? entry.parent) direction fixed (sub base) (sub width)
      | .call function => .call id entry.parent function

/-- The tree below an entry.  Without cycles nothing is deeper than there are entries. -/
def tree? (g : Graph) (id : Nat) : Option Node := g.treeTo g.entries.size id

end Graph

end HdlExpr.Ir
