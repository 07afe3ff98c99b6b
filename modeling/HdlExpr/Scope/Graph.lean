import HdlExpr.Scope.Basic

/-!
# Scopes that share parents

Several scopes may be entered under the same parent; all scopes that grow from one root share one
table of cells, so that what is written through one is seen through the others.  A snapshot is a
chain of its own over a table of its own.
-/

namespace HdlExpr

/-- One level with the scope around it and the table of its cells. -/
structure ScopeGraph.Frame where
  parent : Option Nat
  table : Nat
  level : Level := []
  deriving Inhabited

structure ScopeGraph where
  frames : Array ScopeGraph.Frame := #[]
  tables : Array (Array Value) := #[]
  deriving Inhabited

/-- A cell of one of the tables. -/
structure ScopeGraph.Cell where
  table : Nat
  slot : Nat
  deriving DecidableEq, Repr

namespace ScopeGraph

def tableOf (g : ScopeGraph) (s : Nat) : Nat := ((g.frames[s]?).map (·.table)).getD 0

def parent? (g : ScopeGraph) (s : Nat) : Option Nat := (g.frames[s]?).bind (·.parent)

/-- The levels of a scope, innermost first.  Scopes are numbered above their parents. -/
def levels (g : ScopeGraph) (s : Nat) : List Level :=
  match g.frames[s]? with
  | none => []
  | some frame =>
    frame.level :: match frame.parent with
      | some p => if p < s then levels g p else []
      | none => []
termination_by s

def view (g : ScopeGraph) (s : Nat) : Scope :=
  { levels := g.levels s, cells := (g.tables[g.tableOf s]?).getD #[] }

/-- Takes over what happened to the view of a scope: its innermost level and its cells. -/
def update (g : ScopeGraph) (s : Nat) (scope : Scope) : ScopeGraph :=
  { frames := g.frames.modify s fun frame => { frame with level := scope.levels.headD [] }
    tables := g.tables.setIfInBounds (g.tableOf s) scope.cells }

/-- A new scope, with a table of its own when there is none around it. -/
def enter (g : ScopeGraph) (parent : Option Nat) : Nat × ScopeGraph :=
  match parent with
  | some p => (g.frames.size, { g with frames := g.frames.push ⟨some p, g.tableOf p, []⟩ })
  | none =>
    (g.frames.size,
      { frames := g.frames.push ⟨none, g.tables.size, []⟩, tables := g.tables.push #[] })

def lookup (g : ScopeGraph) (s : Nat) (name : String) : Option Cell :=
  ((g.view s).lookup name).map fun slot => ⟨g.tableOf s, slot⟩

def set? (g : ScopeGraph) (s : Nat) (name : String) (v : Value) : Option (Cell × ScopeGraph) :=
  ((g.view s).set? name v).map fun (slot, scope) => (⟨g.tableOf s, slot⟩, g.update s scope)

def load (g : ScopeGraph) (c : Cell) : Value :=
  (((g.tables[c.table]?).bind (·[c.slot]?)).getD .invalid).asLvalue

def store (g : ScopeGraph) (c : Cell) (v : Value) : ScopeGraph :=
  { g with tables := g.tables.modify c.table (·.setIfInBounds c.slot v.asRvalue) }

def copyLevel (cells : Array Value) (level : Level) (table : Array Value) :
    Level × Array Value :=
  level.foldl
    (fun (copy, table) (name, slot) =>
      (copy ++ [(name, table.size)], table.push ((cells[slot]?).getD .invalid)))
    ([], table)

/-- Copies levels, innermost first, with the outer ones first in the table. -/
def copyLevels (cells : Array Value) : List Level → List Level × Array Value
  | [] => ([], #[])
  | level :: rest =>
    let (outer, table) := copyLevels cells rest
    let (copy, table) := copyLevel cells level table
    (copy :: outer, table)

/-- Adds frames for levels, innermost first, over one table. -/
def addFrames (table : Nat) : List Level → Array Frame → Array Frame × Option Nat
  | [], frames => (frames, none)
  | level :: rest, frames =>
    let (frames, parent) := addFrames table rest frames
    (frames.push ⟨parent, table, level⟩, some frames.size)

/-- Makes a chain of frames of a scope, over a table of its own. -/
def adopt (g : ScopeGraph) (s : Scope) : Option Nat × ScopeGraph :=
  let (frames, id) := addFrames g.tables.size s.levels g.frames
  (id, { frames, tables := g.tables.push s.cells })

end ScopeGraph

/-- A scope with the same bindings and with cells of its own, the outer ones first. -/
def Scope.copy (s : Scope) : Scope :=
  let (levels, cells) := ScopeGraph.copyLevels s.cells s.levels
  { levels, cells }

namespace ScopeGraph

/-- A copy of a scope and all scopes around it, over a table of its own. -/
def snapshot (g : ScopeGraph) (s : Nat) : Option Nat × ScopeGraph := g.adopt (g.view s).copy

/-! ## Where there may be no scope -/

def view? (g : ScopeGraph) (s : Option Nat) : Scope := (s.map g.view).getD .empty

def update? (g : ScopeGraph) (s : Option Nat) (scope : Scope) : ScopeGraph :=
  match s with
  | some s => g.update s scope
  | none => g

def snapshot? (g : ScopeGraph) (s : Option Nat) : Option Nat × ScopeGraph :=
  match s with
  | some s => g.snapshot s
  | none => (none, g)

end ScopeGraph

end HdlExpr
