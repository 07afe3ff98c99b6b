import HdlExpr.Plain
import HdlExpr.Document.Fault
import HdlExpr.Document.Source
import HdlExpr.Tag.Spelling
import HdlExpr.Tree.Basic

/-!
# Documents

A document is one syntax tree that holds several named expressions, and the scope in which they are
evaluated.  Nodes are added children first, so that each expression is a block of nodes that ends at
its root.
-/

namespace HdlExpr

/-- A named expression of a document. -/
structure Document.Expression where
  name : String
  id : NodeId
  deriving DecidableEq, Repr, Inhabited

structure Document where
  tree : Tree
  expressions : List Document.Expression
  scope : Scope
  deriving Inhabited

namespace Document

def file (d : Document) : String := d.tree.file

/-- What keeps a document from being built: a fault of its source, or a node that was taken as a
child twice. -/
inductive Obstacle where
  | fault (f : Fault)
  | link (f : Tree.LinkFault)
  deriving DecidableEq

/-! ## Trees -/

mutual

/-- Adds a node of an expression after its descendants. -/
def link (expression : String) (t : Tree) : Source.Node → Except Obstacle (NodeId × Tree)
  | { tag, symbol, line, column, children } =>
    match Tag.ofSpelling? tag with
    | none => .error (.fault (.unknownTag tag line expression))
    | some known =>
      match linkAll expression t children with
      | .error e => .error e
      | .ok (ids, t) =>
        match t.node known ids with
        | ⟨_, _, some fault⟩ => .error (.link fault)
        | ⟨id, t, none⟩ =>
          let t := t.setSymbol id symbol
          .ok (id, if line ≠ 0 ∨ column ≠ 0 then t.setLocation id line column else t)

/-- Adds nodes in order. -/
def linkAll (expression : String) (t : Tree) :
    List Source.Node → Except Obstacle (List NodeId × Tree)
  | [] => .ok ([], t)
  | n :: rest =>
    match link expression t n with
    | .error e => .error e
    | .ok (id, t) =>
      match linkAll expression t rest with
      | .error e => .error e
      | .ok (ids, t) => .ok (id :: ids, t)

end

/-- The name of the expression at an index: its own, or the index after `#`. -/
def expressionName (index : Nat) (e : Source.Expression) : String :=
  if e.name = "" then "#" ++ toString index else e.name

/-- Adds expressions in order, of which the first has the given index, after those in `done`. -/
def addExpressions (t : Tree) (done : List Expression) :
    Nat → List Source.Expression → Except Obstacle (Tree × List Expression)
  | _, [] => .ok (t, done.reverse)
  | index, e :: rest =>
    let name := expressionName index e
    if done.any (·.name = name) then .error (.fault (.duplicateName name))
    else
      match e.root with
      | none => .error (.fault (.noRoot name))
      | some root =>
        match link name t root with
        | .error e => .error e
        | .ok (id, t) => addExpressions t (⟨name, id⟩ :: done) (index + 1) rest

/-! ## Scopes -/

/-- Whole numbers are signed where they fit. -/
def normalize : Plain → Plain
  | .uint n => if n < halfCount then .int n else .uint n
  | v => v

/-- Binds names in the innermost level, up to the first whose value is not supported. -/
def bindAll (s : Scope) : List (String × Plain) → Except Fault Scope
  | [] => .ok s
  | (name, v) :: rest =>
    match Value.ofPlain? (normalize v) with
    | some x => bindAll (s.set name x) rest
    | none => .error (.unsupportedValue name v.typeName)

/-- The scope of levels, which are innermost first.  The outermost is bound first, each in the order
of its names, and around all of them is a level that binds nothing. -/
def chain : List (List (String × Plain)) → Except Fault Scope
  | [] => .ok Scope.empty.enter
  | values :: outer =>
    match chain outer with
    | .error e => .error e
    | .ok s => bindAll s.enter (values.mergeSort fun a b => decide (a.1 ≤ b.1))

/-! ## Documents -/

/-- Gives the expressions of a source their scope and its definitions. -/
def complete (source : Source) (value : Definition.Calculus) (tree : Tree)
    (expressions : List Expression) : Except Obstacle Document :=
  match chain source.levels with
  | .error e => .error (.fault e)
  | .ok scope =>
    match scope.defineAll source.defines value with
    | (_, some fault) => .error (.fault (.define fault))
    | (scope, none) => .ok { tree, expressions, scope }

/-- The document of a source: first its expressions, then its scope, then its definitions. -/
def build (source : Source) (value : Definition.Calculus := Definition.value) :
    Except Obstacle Document :=
  match addExpressions { file := source.file } [] 0 source.expressions with
  | .error e => .error e
  | .ok (tree, expressions) => complete source value tree expressions

/-- The document that a text describes.  No child of a source has two parents, so that no link can
fail; it would make the text malformed. -/
def decode (text : String) : Except Fault Document :=
  match Source.ofText? text with
  | none => .error (.malformed text.utf8ByteSize)
  | some source =>
    match build source with
    | .ok d => .ok d
    | .error (.fault f) => .error f
    | .error (.link _) => .error (.malformed text.utf8ByteSize)

def lookup (d : Document) (name : String) : Except Fault Expression :=
  match d.expressions.find? (·.name = name) with
  | some e => .ok e
  | none => .error (.noSuchName name d.file)

def record (d : Document) : Log.Record :=
  ⟨.trace, "decode",
    [.text "file" d.file, .int "expressions" d.expressions.length, .int "nodes" d.tree.size]⟩

def records : Except Fault Document → List Log.Record
  | .ok d => [d.record]
  | .error _ => []

end Document

end HdlExpr
