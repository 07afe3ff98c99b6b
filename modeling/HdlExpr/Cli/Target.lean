import HdlExpr.Cli.Failure
import HdlExpr.Document.Cache
import HdlExpr.Fold
import HdlExpr.Ir.Doc
import HdlExpr.Lower
import HdlExpr.Scope.Graph

/-!
# Targets

A target is a loaded document with the expressions chosen from it and a scope of its own, in which
they are evaluated one after the other or from which they are lowered.
-/

namespace HdlExpr.Cli

structure Target where
  path : String
  document : Document
  scope : Scope
  expressions : List Document.Expression

/-- What is asked of every document. -/
structure Wish where
  /-- The names of expressions; without any, all are chosen. -/
  names : List String := []
  defines : List String := []
  limit : Nat := 1000

/-- What came of an expression: a value, or an intermediate representation. -/
inductive Result.Content where
  | value (v : Value)
  | ir (doc : Ir.Doc)

structure Result where
  file : String
  name : String
  line : Int
  content : Result.Content

namespace Target

/-- Where a document is: its name as it was given, and the path it was found at. -/
structure Place where
  name : String
  path : String

def choose (d : Document) (names : List String) : Except Failure (List Document.Expression) :=
  if names.isEmpty then .ok d.expressions
  else
    names.mapM fun name =>
      match d.lookup name with
      | .ok e => .ok e
      | .error fault => .error (.load { fault } none)

/-- Makes the target of a document, on a copy of its scope. -/
def make (wish : Wish) (path : String) (d : Document) : Except Failure Target :=
  match d.scope.copy.defineAll wish.defines with
  | (_, some fault) => .error (.define fault path)
  | (scope, none) => (choose d wish.names).map fun expressions =>
    { path, document := d, scope, expressions }

def record (t : Target) : Log.Record :=
  ⟨.debug, "document loaded", [.text "path" t.path, .int "expressions" t.expressions.length]⟩

/-- Loads documents in order, up to the first that fails. -/
def loadAll (codec : Document.Codec) (fetch : String → Except Document.Fault String) (wish : Wish)
    (cache : Document.Cache) : List Place → Except Failure (List Target) × List Log.Record
  | [] => (.ok [], [])
  | place :: rest =>
    let (load, cache) := cache.load codec fetch place.path
    let made : Except Failure Target := match load.result with
      | .error failure => .error (.load failure place.name)
      | .ok d => make wish place.path d
    match made with
    | .error failure => (.error failure, load.records)
    | .ok t =>
      let (targets, records) := loadAll codec fetch wish cache rest
      (targets.map (t :: ·), load.records ++ t.record :: records)

def result (t : Target) (e : Document.Expression) (content : Result.Content) : Result :=
  { file := t.path, name := e.name, line := (t.document.tree.location e.id).line, content }

/-! ## Evaluation -/

/-- Evaluates expressions in order; each finds the names as those before it left them. -/
def evaluateFrom (t : Target) (mute : Bool) (limit : Nat) (scope : Scope) :
    List Document.Expression → List Result × List Report
  | [] => ([], [])
  | e :: rest =>
    let folded := Fold.evaluate { tree := t.document.tree, mute, limit } e.id scope
    let (results, reports) := evaluateFrom t mute limit folded.scope rest
    (t.result e (.value folded.value) :: results, folded.reports ++ reports)

def evaluate (t : Target) (mute : Bool) (limit : Nat) : List Result × List Report :=
  t.evaluateFrom mute limit t.scope t.expressions

/-! ## Lowering -/

def lowerFrom (t : Target) (σ : Lower.Substitution) (limit : Nat) (factory : Ir.Factory) :
    List Document.Expression → List Result × List Report × Ir.Factory
  | [] => ([], [], factory)
  | e :: rest =>
    let lowered := Lower.lower { tree := t.document.tree, limit } e.id 0 σ factory
    let (results, reports, factory) := lowerFrom t σ limit lowered.factory rest
    (t.result e (.ir (Ir.Node.encode? lowered.node)) :: results, lowered.reports ++ reports,
      factory)

/-- Lowers the expressions of a target, of which the factory has a number. -/
def lower (t : Target) (substitute : Bool) (limit number : Nat) :
    List Result × List Log.Record :=
  let σ := if substitute then .ofScope t.scope else .none
  let (results, reports, factory) := t.lowerFrom σ limit {} t.expressions
  (results, reports.filterMap Log.Record.ofReport? ++
    [⟨.debug, "lowered",
      [.text "path" t.path, .text "factory" (toString number),
       .int "operations" (factory.count .operation)]⟩])

end Target

end HdlExpr.Cli
