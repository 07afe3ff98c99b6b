import HdlExpr.Plain
import HdlExpr.Yaml.Node

/-!
# Document sources

The data of a document before its trees are built: a file name, levels of bindings, definitions,
and named expression trees.  A field that is null has its empty value; a field that is not known
makes the document malformed.
-/

namespace HdlExpr.Document

/-- A node of an expression tree with its children. -/
structure Source.Node where
  tag : String := ""
  symbol : String := ""
  line : Int := 0
  column : Int := 0
  children : List Source.Node := []
  deriving Inhabited

/-- A named expression; without a name it is an empty text. -/
structure Source.Expression where
  name : String := ""
  root : Option Source.Node := none
  deriving Inhabited

/-- A whole document; levels of bindings are innermost first. -/
structure Source where
  file : String := ""
  levels : List (List (String × Plain)) := []
  defines : List String := []
  expressions : List Source.Expression := []
  deriving Inhabited

namespace Source

/-! ## Fields -/

def text? : Yaml.Node → Option String
  | .scalar v _ => Yaml.scalarText? v
  | _ => none

/-- A real as a whole number of 64 bits, if it is not above them. -/
def realInt? (x : Float) : Option Int :=
  if x ≤ 9223372036854775808.0 then
    some (if x == 9223372036854775808.0 then -halfCount else x.toInt64.toInt)
  else none

/-- A number field; a text counts if it writes a real that is not negative. -/
def int? : Yaml.Node → Option Int
  | .scalar .null _ => some 0
  | .scalar (.int i) _ => some i
  | .scalar (.uint n) _ => if n < halfCount then some n else none
  | .scalar (.real x) _ => realInt? x
  | .scalar (.text s) _ => (Numeral.written? s.toList).bind fun x =>
    if 0.0 ≤ x ∧ x ≤ 18446744073709551616.0 then
      some (if x < 9223372036854775808.0 then x.toInt64.toInt else -halfCount)
    else none
  | _ => none

def texts? : Yaml.Node → Option (List String)
  | .scalar .null _ => some []
  | .list items => items.mapM text?
  | _ => none

/-! ## Trees -/

mutual

def Node.ofData? : Yaml.Node → Option Node
  | .scalar .null _ => some {}
  | .map entries =>
    if (Yaml.Node.map entries).fields?.isSome then Node.addEntries {} entries else none
  | _ => none

def Node.addEntries (n : Node) : List (Plain × Yaml.Node) → Option Node
  | [] => some n
  | entry :: rest =>
    match Node.addEntry n entry with
    | some n => Node.addEntries n rest
    | none => none

def Node.addEntry (n : Node) : Plain × Yaml.Node → Option Node
  | (.text "children", .list items) =>
    (Node.ofItems? items).map fun children => { n with children }
  | (field, v) =>
    match field, v with
    | .text "tag", v => (text? v).map fun tag => { n with tag }
    | .text "sym", v => (text? v).map fun symbol => { n with symbol }
    | .text "line", v => (int? v).map fun line => { n with line }
    | .text "column", v => (int? v).map fun column => { n with column }
    | .text "children", .scalar .null _ => some n
    | _, _ => none

def Node.ofItems? : List Yaml.Node → Option (List Node)
  | [] => some []
  | item :: rest =>
    match Node.ofData? item, Node.ofItems? rest with
    | some n, some ns => some (n :: ns)
    | _, _ => none

end

def Expression.addEntry (e : Expression) : String × Yaml.Node → Option Expression
  | ("name", v) => (text? v).map fun name => { e with name }
  | ("root", .scalar .null _) => some e
  | ("root", v) => (Node.ofData? v).map fun root => { e with root }
  | _ => none

def Expression.ofData? : Yaml.Node → Option Expression
  | .scalar .null _ => some {}
  | n => n.fields?.bind fun fields => fields.foldlM Expression.addEntry {}

def expressions? : Yaml.Node → Option (List Expression)
  | .scalar .null _ => some []
  | .list items => items.mapM Expression.ofData?
  | _ => none

/-! ## Levels -/

/-- A text that a name stands for. -/
structure NamedText where
  name : String
  text : String

/-- The text of a field under the name that the field has. -/
def NamedText.ofField? : Yaml.Node → Option NamedText
  | .scalar v (.anchor name) => (Yaml.scalarText? v).map (⟨name, ·⟩)
  | _ => none

/-- The data of a binding.  An alias of `shared` is a text, whatever that text spells, and a cycle
is a mapping, since nothing else is around a binding. -/
def bound (shared : Option NamedText) : Yaml.Node → Plain
  | .scalar v (.alias name) =>
    match shared with
    | some s => if s.name = name then .text s.text else v
    | none => v
  | .cycle => .map []
  | n => n.toPlain

/-- The bindings of a level. -/
def values? (shared : Option NamedText) : Yaml.Node → Option (List (String × Plain))
  | .scalar .null _ => some []
  | n => n.fields?.map fun fields => fields.map fun (name, v) => (name, bound shared v)

mutual

/-- The levels that data describe, each with its parents. -/
def levels? (shared : Option NamedText) : Yaml.Node → Option (List (List (String × Plain)))
  | .scalar .null _ => some []
  | .map entries =>
    if (Yaml.Node.map entries).fields?.isSome then
      (addLevelEntries shared ([], []) entries).map fun (values, outer) => values :: outer
    else none
  | _ => none

def addLevelEntries (shared : Option NamedText)
    (level : List (String × Plain) × List (List (String × Plain))) :
    List (Plain × Yaml.Node) → Option (List (String × Plain) × List (List (String × Plain)))
  | [] => some level
  | entry :: rest =>
    match addLevelEntry shared level entry with
    | some level => addLevelEntries shared level rest
    | none => none

def addLevelEntry (shared : Option NamedText)
    (level : List (String × Plain) × List (List (String × Plain))) :
    Plain × Yaml.Node → Option (List (String × Plain) × List (List (String × Plain)))
  | (.text field, v) =>
    if field = "values" then (values? shared v).map fun values => (values, level.2)
    else if field = "parent" then (levels? shared v).map fun outer => (level.1, outer)
    else none
  | _ => none

end

/-! ## Documents -/

/-- Adds one field to a document; `shared` is the file, if it has a name. -/
def addEntry (shared : Option NamedText) (s : Source) : String × Yaml.Node → Option Source
  | ("file", v) => (text? v).map fun file => { s with file }
  | ("scope", v) => (levels? shared v).map fun levels => { s with levels }
  | ("defines", v) => (texts? v).map fun defines => { s with defines }
  | ("expressions", v) => (expressions? v).map fun expressions => { s with expressions }
  | _ => none

/-- The document that a text describes; an empty text describes an empty document. -/
def ofText? (text : String) : Option Source :=
  match Yaml.Node.read text with
  | some none => some {}
  | some (some n) => n.fields?.bind fun fields =>
    fields.foldlM (addEntry ((fields.lookup "file").bind NamedText.ofField?)) {}
  | none => none

end Source

end HdlExpr.Document
