import HdlExpr.Ir.Doc
import HdlExpr.Text.Quoted
import HdlExpr.Text.Typeset

/-!
# Drawings of the intermediate representation

A lowered expression as a tree of lines, and as a listing of its fields.
-/

namespace HdlExpr.Output

open Ir (Doc)

/-! ## Trees -/

/-- What is written for a node. -/
def label (d : Doc) : String :=
  d.kind ++ " " ++
    match d.kind with
    | "Operation" => d.op
    | "Constant" => d.value
    | "PartSelect" => d.ref ++ "[:]"
    | "IndexedPartSelect" => d.ref ++ "[" ++ d.direction ++ "]"
    | _ => d.name

/-- The lines of a label; the first is marked, and the others are under it. -/
def labelLines (head gap label : String) : List String :=
  match (Text.block (Text.splitLines (Text.expandTabs label.toList))).map String.ofList with
  | [] => [head]
  | first :: rest => (head ++ first) :: rest.map (gap ++ ·)

mutual

/-- The lines of a node under others, of which it is the last or not. -/
def branch (isLast : Bool) : Doc → List String
  | ⟨kind, op, value, name, ref, direction, constant, operands⟩ =>
    let head := if isLast then "╰──" else "├──"
    let gap := if isLast then "   " else "│  "
    labelLines head gap (label ⟨kind, op, value, name, ref, direction, constant, []⟩) ++
      (branches operands).map (gap ++ ·)

def branches : List Doc → List String
  | [] => []
  | d :: rest => branch rest.isEmpty d ++ branches rest

end

def drawing (name : String) (d : Doc) : String :=
  let lines := if d.kind = "" then ["╰──<nil>"] else branch true d
  String.join ((Text.typeset name :: lines).map (· ++ "\n"))

/-! ## Listings -/

/-- A field with a text, unless that is empty. -/
def textField (name value : String) : List String :=
  if value = "" then [] else [name ++ ": " ++ Text.quote value ++ ","]

/-- Lines between braces, or braces alone. -/
def braced (head ending : String) (lines : List String) : List String :=
  if lines.isEmpty then [head ++ "\x7b\x7d" ++ ending]
  else [head ++ "\x7b"] ++ lines.map ("  " ++ ·) ++ ["\x7d" ++ ending]

mutual

def listedFields : Doc → List String
  | ⟨kind, op, value, name, ref, direction, constant, operands⟩ =>
    textField "Kind" kind ++ textField "Op" op ++ textField "Value" value ++
      textField "Name" name ++ textField "Ref" ref ++ textField "Direction" direction ++
      (if constant then ["Constant: true,"] else []) ++
      (if operands.isEmpty then [] else braced "Operands: []Doc" "," (listedItems operands))

def listedItems : List Doc → List String
  | [] => []
  | d :: rest => braced "Doc" "," (listedFields d) ++ listedItems rest

end

/-- A record with its fields, those that are empty left out. -/
def listing (file name : String) (line : Int) (ir : Doc) : String :=
  let lines :=
    braced "record" "" <|
      textField "File" file ++ textField "Name" name ++
      (if line = 0 then [] else ["Line: " ++ toString line ++ ","]) ++
      braced "IR: &Doc" "," (listedFields ir)
  String.join (lines.map (· ++ "\n"))

end HdlExpr.Output
