import HdlExpr.Diagnostic
import HdlExpr.Ir.Node
import HdlExpr.Value.Basic

/-!
# Metrics

Counts of the work done in one run, and their text for a collector of metrics.  How long an
expression took is counted but not measured.
-/

namespace HdlExpr

/-- How often something went well and how often it did not. -/
structure Tally where
  good : Nat := 0
  bad : Nat := 0
  deriving DecidableEq, Repr, Inhabited

namespace Tally

def count (t : Tally) (isGood : Bool) : Tally :=
  if isGood then { t with good := t.good + 1 } else { t with bad := t.bad + 1 }

def total (t : Tally) : Nat := t.good + t.bad

end Tally

structure Metrics where
  /-- Evaluations that gave a valid value, and those that did not. -/
  evaluations : Tally := {}
  /-- Lowerings that gave a node, and those that gave none. -/
  lowerings : Tally := {}
  /-- The kind of each node that was made by lowering, the latest first. -/
  nodes : List Ir.Kind := []
  diagnostics : Nat := 0
  documents : Tally := {}
  deriving Inhabited

namespace Metrics

def observeEvaluation (m : Metrics) (v : Value) : Metrics :=
  { m with evaluations := m.evaluations.count v.isValid }

def observeLowering (m : Metrics) (n : Option Ir.Node) : Metrics :=
  { m with
    lowerings := m.lowerings.count n.isSome
    nodes := ((Ir.Node.allOf? n).map (·.kind)).reverse ++ m.nodes }

def report (m : Metrics) (_ : Diagnostic) : Metrics := { m with diagnostics := m.diagnostics + 1 }

def observeDocument (m : Metrics) (isLoaded : Bool) : Metrics :=
  { m with documents := m.documents.count isLoaded }

/-! ## Samples -/

/-- A number with labels. -/
structure Sample where
  labels : List (String × String) := []
  number : Nat
  deriving DecidableEq, Repr

/-- Samples under one name. -/
structure Family where
  name : String
  help : String
  type : String := "counter"
  /-- What is added to the name of a sample. -/
  ending : String := ""
  samples : List Sample

/-- A sample that appears once there is something to count. -/
def counted (labels : List (String × String)) (number : Nat) : List Sample :=
  if number = 0 then [] else [{ labels, number }]

def sortedKinds : List Ir.Kind :=
  Ir.Kind.all.mergeSort fun a b => decide (a.name ≤ b.name)

/-- All families in the order of their names, each with its samples in the order of their labels. -/
def families (m : Metrics) : List Family :=
  [ { name := "svexpr_diagnostics_total"
      help := "Diagnostics reported during evaluation."
      samples := [{ number := m.diagnostics }] },
    { name := "svexpr_documents_total"
      help := "Tree documents processed, by outcome."
      samples :=
        counted [("outcome", "error")] m.documents.bad ++
        counted [("outcome", "ok")] m.documents.good },
    { name := "svexpr_expression_duration_seconds"
      help := "Time spent on one expression, by engine."
      type := "histogram"
      ending := "_count"
      samples :=
        counted [("engine", "eval")] m.evaluations.total ++
        counted [("engine", "lower")] m.lowerings.total },
    { name := "svexpr_expressions_total"
      help := "Expressions processed, by engine and outcome."
      samples :=
        counted [("engine", "eval"), ("outcome", "invalid")] m.evaluations.bad ++
        counted [("engine", "eval"), ("outcome", "ok")] m.evaluations.good ++
        counted [("engine", "lower"), ("outcome", "empty")] m.lowerings.bad ++
        counted [("engine", "lower"), ("outcome", "ok")] m.lowerings.good },
    { name := "svexpr_ir_nodes_total"
      help := "IR nodes produced by lowering, by kind."
      samples := sortedKinds.map fun k =>
        { labels := [("kind", k.name)], number := m.nodes.count k } } ]

/-! ## Text -/

def Sample.text (s : Sample) (name : String) : String :=
  let labels := s.labels.map fun (key, value) => key ++ "=\"" ++ value ++ "\""
  name ++ (if labels.isEmpty then "" else "\x7b" ++ ",".intercalate labels ++ "\x7d") ++ " " ++
    toString s.number ++ "\n"

/-- A family without samples is left out. -/
def Family.text (f : Family) : String :=
  if f.samples.isEmpty then ""
  else
    "# HELP " ++ f.name ++ " " ++ f.help ++ "\n# TYPE " ++ f.name ++ " " ++ f.type ++ "\n" ++
      String.join (f.samples.map fun s => s.text (f.name ++ f.ending))

def text (m : Metrics) : String := String.join (m.families.map (·.text))

end Metrics

end HdlExpr
