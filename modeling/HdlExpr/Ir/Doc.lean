import HdlExpr.Ir.Node

/-!
# Documents

A node without its numbers and parents, for printing and for comparing by structure.
-/

namespace HdlExpr.Ir

/-- The fields that describe a node; those that its kind does not use are empty.  The document
with no kind stands for no node. -/
structure Doc where
  kind : String := ""
  op : String := ""
  value : String := ""
  name : String := ""
  ref : String := ""
  direction : String := ""
  constant : Bool := false
  operands : List Doc := []
  deriving Inhabited

namespace Doc

def empty : Doc := {}

/-- One of several rendered operands, or the mark of a missing one. -/
def operandText (texts : List String) (i : Nat) : String := (texts[i]?).getD "<nil>"

mutual

/-- Operations as `(Op a b)`, constants by their text, references and calls by their name, and
selects in brackets. -/
def text : Doc → String
  | ⟨kind, op, value, name, ref, direction, _, operands⟩ =>
    let texts := textOf operands
    match kind with
    | "" => "<nil>"
    | "Operation" => "(" ++ " ".intercalate (op :: texts) ++ ")"
    | "Constant" => value
    | "BitSelect" => name ++ "[" ++ operandText texts 0 ++ "]"
    | "PartSelect" => ref ++ "[" ++ operandText texts 0 ++ ":" ++ operandText texts 1 ++ "]"
    | "IndexedPartSelect" =>
      ref ++ "[" ++ operandText texts 0 ++ direction ++ operandText texts 1 ++ "]"
    | _ => name

def textOf : List Doc → List String
  | [] => []
  | d :: rest => d.text :: textOf rest

end

end Doc

namespace Node

/-- The name of the object that a part select hangs under. -/
def objectName (object : Option Ref) : String := (object.map (·.name)).getD ""

mutual

def encode : Node → Doc
  | .operation _ _ op operands =>
    { kind := "Operation", op := op.name, operands := encodeOf operands }
  | .constant _ _ text => { kind := "Constant", value := text }
  | .ref r => { kind := "RefObj", name := r.name }
  | .bitSelect _ _ name index =>
    { kind := "BitSelect", name := name, operands := [encode? index] }
  | .partSelect _ object fixed left right =>
    { kind := "PartSelect", ref := objectName object, constant := fixed,
      operands := [encode? left, encode? right] }
  | .indexedSelect _ object direction fixed base width =>
    { kind := "IndexedPartSelect", ref := objectName object, direction := direction.name,
      constant := fixed, operands := [encode? base, encode? width] }
  | .call _ _ function => { kind := "SysFuncCall", name := function }

def encodeOf : List Node → List Doc
  | [] => []
  | n :: rest => n.encode :: encodeOf rest

/-- The document of a node that may be missing. -/
def encode? : Option Node → Doc
  | none => {}
  | some n => n.encode

end

end Node

end HdlExpr.Ir
