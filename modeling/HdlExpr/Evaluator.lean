import HdlExpr.Fold
import HdlExpr.Log.Logger
import HdlExpr.Text.Search

/-!
# Evaluators

An evaluator folds expressions for others to watch.  A sink may take the diagnostics, and a logger
writes what else there is to tell, each node that was folded only if its level is fine enough.  They
are told while folding goes on, and without a sink no diagnostics are made.  A diagnostic takes a
search for a hint; if that breaks down, so does the evaluation, and what was done by then stays
done.
-/

namespace HdlExpr

structure Evaluator where
  /-- Whether there is a sink. -/
  sink : Bool := false
  logger : Log.Logger := .zero
  limit : Nat := 1000
  suggest : Suggest := Text.Search.suggest?

namespace Evaluator

/-- A folding under way, with what the sink and the log have got so far. -/
structure State where
  scope : Scope
  warned : Bool := false
  diagnostics : List Diagnostic := []
  log : String := ""

/-- Foldings by one evaluator, which may break down on their way. -/
def Run (_ : Evaluator) : Type → Type := OptionT (StateM State)

instance (e : Evaluator) : Monad e.Run := inferInstanceAs (Monad (OptionT (StateM State)))

variable (e : Evaluator)

def tell (r : Report) : e.Run Unit := fun s =>
  match r with
  | .unresolved c =>
    match c.diagnostic? e.suggest with
    | some d => (some (), { s with diagnostics := s.diagnostics ++ [d] })
    | none => (none, s)
  | r => (some (), { s with log := s.log ++ e.logger.writeReports [r] })

/-- What folding reports is passed on at once. -/
def watch {α : Type} (x : Fold.Run α) : e.Run α := fun s =>
  let (a, t) := x { scope := s.scope, warned := s.warned }
  (t.reports.toList.forM e.tell >>= fun _ => pure a : e.Run α)
    { s with scope := t.scope, warned := t.warned }

instance : MonadLift Fold.Run e.Run := ⟨e.watch⟩

/-- Passes on a report that only the finest level of a log shows. -/
def trace (r : Report) : e.Run Unit := do
  if e.logger.isEnabled .trace then Fold.report r

/-- Folds a node whose operands may nest `budget` deep, the node itself included. -/
def fold (c : Fold.Context) : Nat → NodeId → e.Run Fold.Operand
  | 0, n => do
    Fold.warn c n
    pure .absent
  | budget + 1, n => do
    let form := Form.decode c.tree n
    let x ← Fold.visit c (fold c budget) form
    e.trace (.folded form.shape (c.tree.location form.site) x.value)
    pure x

/-- What an evaluation leaves behind; there is no value if it broke down. -/
structure Outcome extends State where
  value : Option Value

/-- Folds the expression at a node over a scope; when `mute`, nothing goes to the sink. -/
def evaluate (tree : Tree) (n : NodeId) (scope : Scope) (mute : Bool) : Outcome :=
  let (x, s) := e.fold { tree, mute := mute || !e.sink, limit := e.limit } e.limit n { scope }
  { s with value := x.map (·.value) }

end Evaluator

end HdlExpr
