import HdlExpr.Document.Cache
import HdlExpr.Fold
import HdlExpr.Lower
import HdlExpr.Metrics
import HdlExpr.Plain
import HdlExpr.Scope.Graph

/-!
# Batches

Both engines run over every expression of several documents.  There is a worker for each path, and
workers take turns.  They share the cache with the documents in it, the cells of all scopes, the
metrics, the log and the list of failures.  A document is processed on a snapshot of its scope, with
a factory and a collector of diagnostics of its own; documents that cannot be loaded are passed over
and their failures kept.  When the search for a hint breaks down, so does the whole batch.
-/

namespace HdlExpr.Batch

/-- What both engines made of one expression. -/
structure Result where
  name : String
  location : Location
  value : Value
  node : Option Ir.Node
  deriving Inhabited

/-- The number of nodes that the expression was lowered to. -/
def Result.nodes (r : Result) : Nat := (Ir.Node.allOf? r.node).length

/-- What came of one document. -/
structure File where
  path : String
  results : List Result
  diagnostics : List Diagnostic
  deriving Inhabited

/-- Why nothing came of a path. -/
inductive Failure where
  | load (failure : Document.Failure)
  | canceled

def Failure.message : Failure → String
  | .load failure => failure.message
  | .canceled => "context canceled"

/-- What comes of a path: a file, or why there is none. -/
abbrev Outcome := Except Failure File

/-- What is the same for all documents. -/
structure Settings extends Document.Codec where
  /-- The text of a document, or why it cannot be read. -/
  read : String → Except Document.Fault String
  suggest : Suggest
  limit : Nat := 1000
  /-- Whether names are replaced by their values. -/
  substitute : Bool := true

/-! ## One expression -/

/-- Those that are told of diagnostics: the collector of a document, the metrics and the log. -/
structure Sinks where
  collected : List Diagnostic := []
  metrics : Metrics := {}
  records : List Log.Record := []

namespace Sinks

def report (s : Sinks) (d : Diagnostic) : Sinks where
  collected := s.collected ++ [d]
  metrics := s.metrics.report d
  records := s.records ++ [.ofDiagnostic d]

def log (s : Sinks) (r : Report) : Sinks :=
  { s with records := s.records ++ (Log.Record.ofReport? r).toList }

/-- Passes on what an evaluation reports, and tells whether no search broke down. -/
def tell (suggest : Suggest) (s : Sinks) : List Report → Sinks × Bool
  | [] => (s, true)
  | .unresolved c :: rest =>
    match c.diagnostic? suggest with
    | some d => (s.report d).tell suggest rest
    | none => (s, false)
  | r :: rest => (s.log r).tell suggest rest

end Sinks

/-- What goes from one expression of a document to the next. -/
structure State extends Sinks where
  scope : Scope
  factory : Ir.Factory := {}

/-- Lowers an expression and then evaluates it, so that names are replaced by the values they have
before the expression steps any.  There is no result if the evaluation breaks down. -/
def processExpression (settings : Settings) (tree : Tree) (s : State) (e : Document.Expression) :
    Option Result × State :=
  let σ := if settings.substitute then .ofScope s.scope else .none
  let lowered := Lower.lower { tree, limit := settings.limit } e.id 0 σ s.factory
  let sinks := lowered.reports.foldl Sinks.log s.toSinks
  let sinks := { sinks with metrics := sinks.metrics.observeLowering lowered.node }
  let folded := Fold.evaluate { tree, limit := settings.limit } e.id s.scope
  let (sinks, whole) := sinks.tell settings.suggest folded.reports
  let s : State := { toSinks := sinks, scope := folded.scope, factory := lowered.factory }
  if whole then
    (some
      { name := e.name, location := tree.location e.id, value := folded.value
        node := lowered.node },
      { s with metrics := s.metrics.observeEvaluation folded.value })
  else (none, s)

/-! ## Workers -/

/-- A document whose expressions are processed one after the other. -/
structure Work where
  document : Document
  /-- The innermost of the scopes that are its own. -/
  scope : Option Nat
  factory : Ir.Factory := {}
  results : List Result := []
  collected : List Diagnostic := []
  left : List Document.Expression := document.expressions

/-- How far a worker is. -/
inductive Stage where
  | waiting
  | reading (r : Document.Cache.Reader)
  /-- The document is there, and the innermost scope of its own. -/
  | loaded (d : Document) (home : Option Nat)
  | processing (w : Work)
  | counting (outcome : Outcome)
  | reporting (outcome : Outcome)
  | finished (outcome : Outcome)
  /-- The batch was canceled before the worker began. -/
  | withdrawn

structure Worker where
  place : Nat
  path : String
  stage : Stage := .waiting

def Work.file (w : Work) (path : String) : File :=
  { path, results := w.results, diagnostics := w.collected }

def File.record (f : File) : Log.Record :=
  ⟨.debug, "document processed",
    [.text "path" f.path, .int "expressions" f.results.length,
     .int "diagnostics" f.diagnostics.length]⟩

/-- What workers share, and what they have done so far. -/
structure Run where
  cache : Document.Cache := {}
  /-- The scopes of the documents and of the workers. -/
  scopes : ScopeGraph := {}
  /-- The innermost scopes of the documents, by the entries of the cache. -/
  homes : List (Nat × Option Nat) := []
  metrics : Metrics := {}
  /-- The documents that were loaded, each with its place among the paths. -/
  files : List (Nat × File) := []
  /-- The paths of which nothing came, in the order in which that was found. -/
  failures : List (String × Failure) := []
  records : List Log.Record := []
  canceled : Bool := false
  /-- Whether a worker has withdrawn. -/
  withdrawn : Bool := false
  /-- Whether a worker broke down, and everything with it. -/
  crashed : Bool := false
  deriving Inhabited

namespace Run

def log (r : Run) (records : List Log.Record) : Run := { r with records := r.records ++ records }

/-- The scope of a document.  It is made when the document is first asked for. -/
def home (r : Run) (entry : Nat) (d : Document) : Option Nat × Run :=
  match r.homes.lookup entry with
  | some home => (home, r)
  | none =>
    let (home, scopes) := r.scopes.adopt d.scope
    (home, { r with scopes, homes := (entry, home) :: r.homes })

end Run

/-- What a reader logs when it has decoded. -/
def decodeRecords (fresh : Bool) : Document.Cache.Phase → List Log.Record
  | .failing fault => if fresh then Document.records (.error fault) else []
  | .returned result => if fresh then Document.records result else []
  | .started => []

section Turns

variable (settings : Settings)

/-- What an expression of a document finds. -/
def Work.state (w : Work) (r : Run) : State :=
  { scope := r.scopes.view? w.scope, factory := w.factory, collected := w.collected
    metrics := r.metrics, records := r.records }

/-- Processes the next expression of a document on the scope of its worker. -/
def Work.next (w : Work) (e : Document.Expression) (left : List Document.Expression) (r : Run) :
    Option Work × Run :=
  let (result, s) := processExpression settings w.document.tree (w.state r) e
  (result.map fun result =>
      { w with
        factory := s.factory, results := w.results ++ [result], collected := s.collected, left },
    { r with
      scopes := r.scopes.update? w.scope s.scope, metrics := s.metrics, records := s.records
      crashed := result.isNone })

theorem Work.next_of_alive {w : Work} {e : Document.Expression}
    {left : List Document.Expression} {r : Run}
    (halive : (w.next settings e left r).2.crashed = false) :
    ∃ next, (w.next settings e left r).1 = some next ∧ next.left = left := by
  cases hresult : (processExpression settings w.document.tree (w.state r) e).1 with
  | none => simp [next, hresult] at halive
  | some result => exact ⟨_, by simp only [next, hresult]; rfl, rfl⟩

/-- A turn of a worker.  It takes the entry of its text, decodes it, drops it if that failed, takes
a snapshot of the scope of its document, processes an expression, counts the document, or hands over
what came of it. -/
def Worker.advance (w : Worker) (r : Run) : Worker × Run :=
  match w.stage with
  | .waiting =>
    if r.canceled then ({ w with stage := .withdrawn }, { r with withdrawn := true })
    else
      match settings.read w.path with
      | .error fault =>
        ({ w with stage := .counting (.error (.load { fault, path := w.path })) }, r)
      | .ok text =>
        let (reader, cache) := r.cache.start settings.toCodec text
        ({ w with stage := .reading reader },
          { r with cache }.log [Document.Cache.lookupRecord settings.toCodec text reader.hit])
  | .reading reader =>
    let (reader, fresh, cache) := reader.proceed settings.toCodec r.cache
    let r := { r with cache }.log (decodeRecords fresh reader.phase)
    match reader.phase with
    | .returned (.ok d) =>
      let (home, r) := r.home reader.entry d
      ({ w with stage := .loaded d home }, r)
    | .returned (.error fault) =>
      ({ w with stage := .counting (.error (.load { fault, path := w.path })) }, r)
    | _ => ({ w with stage := .reading reader }, r)
  | .loaded document home =>
    let (scope, scopes) := r.scopes.snapshot? home
    ({ w with stage := .processing { document, scope } }, { r with scopes })
  | .processing work =>
    match work.left with
    | [] =>
      let file := work.file w.path
      ({ w with stage := .counting (.ok file) }, r.log [file.record])
    | e :: left =>
      if r.canceled then ({ w with stage := .counting (.error .canceled) }, r)
      else
        let (next, r) := work.next settings e left r
        ({ w with stage := .processing (next.getD work) }, r)
  | .counting outcome =>
    ({ w with stage := .reporting outcome },
      { r with metrics := r.metrics.observeDocument outcome.isOk })
  | .reporting (.ok file) =>
    ({ w with stage := .finished (.ok file) }, { r with files := r.files ++ [(w.place, file)] })
  | .reporting (.error failure) =>
    ({ w with stage := .finished (.error failure) },
      { r with failures := r.failures ++ [(w.path, failure)] })
  | .finished _ | .withdrawn => (w, r)

/-! ## One worker after the other -/

/-- How far a worker is from its end: first what it has to do, then how often. -/
def Stage.rank : Stage → Nat × Nat
  | .waiting => (8, 0)
  | .reading r => (5 + r.phase.left, 0)
  | .loaded _ _ => (4, 0)
  | .processing w => (3, w.left.length)
  | .counting _ => (2, 0)
  | .reporting _ => (1, 0)
  | .finished _ | .withdrawn => (0, 0)

/-- A turn brings a worker closer to its end, or everything breaks down. -/
theorem Worker.advance_rank {w : Worker} {r : Run} (h : w.stage.rank.1 ≠ 0)
    (halive : (w.advance settings r).2.crashed = false) :
    Prod.Lex (· < ·) (· < ·) (w.advance settings r).1.stage.rank w.stage.rank := by
  obtain ⟨place, path, stage⟩ := w
  cases stage with
  | waiting =>
    simp only [advance]
    split
    · exact .left _ _ (by decide)
    · split
      · exact .left _ _ (by decide)
      · exact .left _ _ (Nat.lt_succ_self 7)
  | reading reader =>
    have hleft := reader.left_proceed settings.toCodec r.cache
    simp only [advance]
    split
    · exact .left _ _ (by omega)
    · exact .left _ _ (by omega)
    case h_3 hok hfault =>
      have hbusy := Document.Cache.Phase.left_ne_zero hok hfault
      exact .left _ _ (by omega)
  | loaded => exact .left _ _ (by decide)
  | processing work =>
    revert halive
    simp only [advance]
    split
    · exact fun _ => .left _ _ (by decide)
    case h_2 e left hwork =>
      split
      · exact fun _ => .left _ _ (by decide)
      · intro (halive : (work.next settings e left r).2.crashed = false)
        obtain ⟨next, hnext, hleft⟩ := Work.next_of_alive settings halive
        refine .right _ ?_
        simp only [hnext, Option.getD_some, hleft, hwork, List.length_cons]
        exact Nat.lt_succ_self _
  | counting => exact .left _ _ (by decide)
  | reporting o => cases o <;> exact .left _ _ (by decide)
  | finished | withdrawn => exact absurd rfl h

/-- All turns of a worker in a row. -/
def Worker.complete (w : Worker) (r : Run) : Worker × Run :=
  if _h : w.stage.rank.1 = 0 then (w, r)
  else
    if _halive : (w.advance settings r).2.crashed = false then
      (w.advance settings r).1.complete (w.advance settings r).2
    else w.advance settings r
termination_by w.stage.rank
decreasing_by exact w.advance_rank settings _h _halive

/-- Workers, and what they share. -/
structure Crew where
  run : Run := {}
  workers : List Worker

namespace Crew

/-- A worker for each path. -/
def assemble (run : Run) (paths : List String) : Crew :=
  { run, workers := paths.zipIdx.map fun p => { place := p.2, path := p.1 } }

/-- The turn of one worker, unless everything broke down. -/
def turn (s : Crew) (i : Nat) : Crew :=
  if s.run.crashed then s
  else
    match s.workers[i]? with
    | none => s
    | some w =>
      let (w, run) := w.advance settings s.run
      { run, workers := s.workers.set i w }

/-- All turns of one worker, unless everything broke down. -/
def finish (s : Crew) (i : Nat) : Crew :=
  if s.run.crashed then s
  else
    match s.workers[i]? with
    | none => s
    | some w =>
      let (w, run) := w.complete settings s.run
      { run, workers := s.workers.set i w }

end Crew

/-- The work on all paths in a given order of their places. -/
def runIn (paths : List String) (order : List Nat) (canceled : Bool := false) : Run :=
  (order.foldl (Crew.finish settings) (.assemble { canceled } paths)).run

/-- The work on all paths, one after the other. -/
def run (paths : List String) (canceled : Bool := false) : Run :=
  runIn settings paths (List.range paths.length) canceled

end Turns

/-! ## Summaries -/

/-- The documents that were loaded, in the order of their paths. -/
def Run.loaded (r : Run) (paths : List String) : List File :=
  (List.range paths.length).filterMap fun place => r.files.lookup place

structure Summary where
  files : List File := []
  expressions : Nat := 0
  invalid : Nat := 0
  empty : Nat := 0
  diagnostics : Nat := 0
  deriving Inhabited

/-- The number of results without a valid value. -/
def File.invalid (f : File) : Nat := f.results.countP (!·.value.isValid)

/-- The number of results without a node. -/
def File.empty (f : File) : Nat := f.results.countP (·.nodes == 0)

/-- The totals over documents. -/
def summarize (files : List File) : Summary :=
  { files
    expressions := total (files.map (·.results.length))
    invalid := total (files.map (·.invalid))
    empty := total (files.map (·.empty))
    diagnostics := total (files.map (·.diagnostics.length)) }

def Run.summary (r : Run) (paths : List String) : Summary := summarize (r.loaded paths)

/-- Why a summary is not that of all documents. -/
inductive Trouble where
  | canceled
  | incomplete (failures : List (String × Failure))

/-- Each failure is told after its path. -/
def Trouble.message : Trouble → String
  | .canceled => Failure.canceled.message
  | .incomplete failures =>
    "; ".intercalate (failures.map fun (path, f) => path ++ ": " ++ f.message)

/-- What a batch gives in the end: a summary, which is empty if a worker has withdrawn, and why it
is not that of all documents. -/
def Run.report (r : Run) (paths : List String) : Summary × Option Trouble :=
  if r.withdrawn then ({}, some .canceled)
  else (r.summary paths, if r.failures.isEmpty then none else some (.incomplete r.failures))

end HdlExpr.Batch
