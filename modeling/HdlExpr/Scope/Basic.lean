import HdlExpr.Value.Basic

/-!
# Scopes

A scope is a chain of levels, the innermost first, over one table of cells.  A level gives each of
its names a cell of its own; a name in an inner level hides the same name further out.  The scope
without levels binds nothing and cannot be written to.
-/

namespace HdlExpr

abbrev Level := List (String × Nat)

def Level.slot? (level : Level) (name : String) : Option Nat := level.lookup name

structure Scope where
  levels : List Level := []
  cells : Array Value := #[]
  deriving Inhabited

namespace Scope

def empty : Scope := {}

/-- A new level inside all others. -/
def enter (s : Scope) : Scope := { s with levels := [] :: s.levels }

def outer (s : Scope) : Scope := { s with levels := s.levels.tail }

/-- The cell of a name in the innermost level that binds it. -/
def lookup (s : Scope) (name : String) : Option Nat := s.levels.findSome? (·.slot? name)

/-- The value in a cell, marked as read from an assignable place. -/
def load (s : Scope) (slot : Nat) : Value := ((s.cells[slot]?).getD .invalid).asLvalue

def store (s : Scope) (slot : Nat) (v : Value) : Scope :=
  { s with cells := s.cells.setIfInBounds slot v.asRvalue }

def get? (s : Scope) (name : String) : Option Value := (s.lookup name).map s.load

/-- Binds a name in the innermost level and gives its cell; there is none without a level. -/
def set? (s : Scope) (name : String) (v : Value) : Option (Nat × Scope) :=
  match s.levels with
  | [] => none
  | level :: rest =>
    match level.slot? name with
    | some slot => some (slot, s.store slot v)
    | none =>
      some (s.cells.size,
        { levels := ((name, s.cells.size) :: level) :: rest
          cells := s.cells.push v.asRvalue })

/-- Binds a name in the innermost level, if there is one. -/
def set (s : Scope) (name : String) (v : Value) : Scope :=
  match s.set? name v with
  | some (_, s) => s
  | none => s

/-- Texts in order, each once. -/
def sortedNames (names : List String) : List String :=
  (names.mergeSort fun a b => decide (a ≤ b)).eraseReps

/-- The names that are visible, in order. -/
def names (s : Scope) : List String := sortedNames (s.levels.flatMap (·.map (·.1)))

def bindings (s : Scope) : List (String × Value) :=
  s.names.filterMap fun name => (s.get? name).map fun v => (name, v.asRvalue)

def validBindings (s : Scope) : List (String × Value) := s.bindings.filter (·.2.isValid)

end Scope

end HdlExpr
