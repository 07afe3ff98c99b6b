import HdlExpr.Cli.Target
import HdlExpr.Output.Data
import HdlExpr.Output.Drawing

/-!
# Formats of results

How the results of expressions are written.
-/

namespace HdlExpr.Cli

inductive Format where
  /-- One line for each expression. -/
  | line
  /-- A tree of lines for each expression. -/
  | tree
  /-- The fields of each result. -/
  | dump
  | json
  | yaml
  deriving DecidableEq, Repr

namespace Format

def ofName : String → Format
  | "tree" => .tree
  | "dump" => .dump
  | "json" => .json
  | "yaml" => .yaml
  | _ => .line

end Format

namespace Result

/-- A value as text; texts are quoted to tell them from numbers. -/
def display (v : Value) : String :=
  match v.kind with
  | .text => Text.quote v.content
  | _ => v.toText

def data (r : Result) : Output.Data :=
  .object <|
    [("file", .text r.file), ("name", .text r.name)] ++
    (if r.line = 0 then [] else [("line", .scalar (toString r.line))]) ++
    match r.content with
    | .value v =>
      Output.Data.textMember "kind" v.kind.name ++ Output.Data.textMember "value" (display v)
    | .ir doc => [("ir", Output.Data.ofDoc doc)]

/-- A result in a format of its own; `showFile` tells whether its name needs the file. -/
def text (format : Format) (showFile : Bool) (r : Result) : String :=
  match r.content with
  | .value v => (if showFile then r.file ++ ":" ++ r.name else r.name) ++ " = " ++ display v ++ "\n"
  | .ir doc =>
    match format with
    | .tree => Output.drawing r.name doc
    | .dump => Output.listing r.file r.name r.line doc
    | _ => r.name ++ " = " ++ doc.text ++ "\n"

end Result

def Format.write (format : Format) (showFile : Bool) (results : List Result) : String :=
  match format with
  | .json =>
    if results.isEmpty then "null\n" else (Output.Data.list (results.map (·.data))).json 0 ++ "\n"
  | .yaml => (Output.Data.list (results.map (·.data))).yamlDocument
  | _ => String.join (results.map (·.text format showFile))

end HdlExpr.Cli
