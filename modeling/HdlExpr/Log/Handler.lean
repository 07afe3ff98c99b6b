import HdlExpr.Log.Logger

/-!
# Handlers of pretty text

A handler keeps the attributes and the groups that were added to it in two slices.  A handler that
is derived from another one has longer slices, which may look into the same arrays.  No handler
leaves others room in its slices, so whatever is added goes to a new array.
-/

namespace HdlExpr

/-- The first elements of an array, which has room for more. -/
structure Slice where
  array : Nat := 0
  length : Nat := 0
  capacity : Nat := 0

namespace Slice

variable {α : Type}

/-- What is seen through a slice. -/
def read (m : List (List α)) (s : Slice) : List α := ((m[s.array]?).getD []).take s.length

/-- A slice without any room. -/
def clip (s : Slice) : Slice := { s with capacity := s.length }

/-- Elements behind those of a slice.  They are written to its array if there is room, whoever else
looks into it; else all goes to a new array with as much room as `grow` says. -/
def append (grow : Nat → Nat) (s : Slice) (m : List (List α)) (xs : List α) :
    Slice × List (List α) :=
  let length := s.length + xs.length
  if length ≤ s.capacity then
    ({ s with length },
      m.modify s.array fun cells => cells.take s.length ++ xs ++ cells.drop length)
  else
    ({ array := m.length, length, capacity := max length (grow length) }, m ++ [s.read m ++ xs])

end Slice

namespace Log

/-- The arrays of all handlers. -/
structure Heap where
  attrs : List (List Attr) := []
  groups : List (List String) := []

structure Handler where
  attrs : Slice := {}
  groups : Slice := {}

namespace Handler

variable (grow : Nat → Nat)

def withAttrs (h : Handler) (m : Heap) (attrs : List Attr) : Handler × Heap :=
  let (s, arrays) := h.attrs.clip.append grow m.attrs attrs
  ({ h with attrs := s }, { m with attrs := arrays })

def withGroup (h : Handler) (m : Heap) (name : String) : Handler × Heap :=
  if name = "" then (h, m)
  else
    let (s, arrays) := h.groups.clip.append grow m.groups [name]
    ({ h with groups := s }, { m with groups := arrays })

mutual

/-- The fields of an attribute.  The groups around it are in a slice, to which those inside it are
added on the way. -/
def fields (c : Config) (groups : Slice) (m : List (List String)) :
    Attr → List String × List (List String)
  | .empty => ([], m)
  | .leaf key d =>
    ((d.shown? c.formatTime key).toList.map fun d =>
      c.palette.key (prettyKey (groups.read m) key) ++ "=" ++ d.pretty c.palette key, m)
  | .group key members =>
    let (inner, m) := if key = "" then (groups, m) else groups.clip.append grow m [key]
    fieldsOf c inner m members

def fieldsOf (c : Config) (groups : Slice) (m : List (List String)) :
    List Attr → List String × List (List String)
  | [] => ([], m)
  | a :: rest =>
    let (first, m) := fields c groups m a
    let (others, m) := fieldsOf c groups m rest
    (first ++ others, m)

end

def handle (c : Config) (h : Handler) (m : Heap) (r : Record) (o : Origin := {}) : String × Heap :=
  let (head, arrays) := fieldsOf grow c {} m.groups (c.head r o)
  let (added, arrays) := fieldsOf grow c h.groups arrays (h.attrs.read m.attrs)
  let (own, arrays) := fieldsOf grow c h.groups arrays r.attrs
  (" ".intercalate (head ++ added ++ own), { m with groups := arrays })

end Handler

/-! ## Handlers that are derived from each other -/

/-- What may be done with a handler. -/
inductive Call where
  | withAttrs (attrs : List Attr)
  | withGroup (name : String)
  | handle (r : Record) (o : Origin)

/-- All handlers that were derived from the first one, with their arrays. -/
structure Family where
  heap : Heap := {}
  handlers : List Handler := [{}]

namespace Family

variable (grow : Nat → Nat) (c : Config)

/-- Does something with the handler at a place.  One that is derived goes to the end. -/
def call (f : Family) (place : Nat) (call : Call) : Family :=
  match f.handlers[place]? with
  | none => f
  | some h =>
    match call with
    | .withAttrs attrs =>
      let (h, heap) := h.withAttrs grow f.heap attrs
      { heap, handlers := f.handlers ++ [h] }
    | .withGroup name =>
      let (h, heap) := h.withGroup grow f.heap name
      { heap, handlers := f.handlers ++ [h] }
    | .handle r o => { f with heap := (h.handle grow c f.heap r o).2 }

/-- What comes of the first handler, where each call is for the handler at a place. -/
def run (calls : List (Nat × Call)) : Family :=
  calls.foldl (fun f p => f.call grow c p.1 p.2) {}

/-- The line that the handler at a place writes of a record. -/
def line (f : Family) (place : Nat) (r : Record) (o : Origin := {}) : Option String :=
  f.handlers[place]?.map fun h => (h.handle grow c f.heap r o).1

end Family

end Log

end HdlExpr
