import HdlExpr.Diagnostic
import HdlExpr.Form
import HdlExpr.Ir.Node

/-!
# Reports

What evaluation and lowering tell about their work while they do it, in the order in which it
happens.
-/

namespace HdlExpr

/-- A name without a binding, where it stands, and the names that are in sight there. -/
structure Complaint where
  name : String
  location : Location
  visible : List String
  deriving DecidableEq, Repr

/-- A search for the one among several names that is meant by a name; the empty text stands for
none.  A search may break down, and then it takes down whoever asked. -/
abbrev Suggest := String → List String → Option String

/-- The diagnostic of a complaint, unless the search for a hint breaks down. -/
def Complaint.diagnostic? (suggest : Suggest) (c : Complaint) : Option Diagnostic :=
  (suggest c.name c.visible).map fun hint => ⟨.unresolvedName, c.location, c.name, hint⟩

inductive Report where
  /-- A name was not bound. -/
  | unresolved (c : Complaint)
  /-- An expression was cut off because it nests deeper than `limit`. -/
  | tooDeepToFold (limit : Nat) (place : Location)
  | tooDeepToLower (limit : Nat) (place : Location)
  /-- A node was folded to a value. -/
  | folded (shape : Shape) (place : Location) (value : Value)
  /-- A node was lowered to a node of some kind, or to nothing. -/
  | lowered (shape : Shape) (place : Location) (kind : Option Ir.Kind)
  /-- A name was replaced by its value. -/
  | substituted (name : String) (value : Value)

def Report.complaints (reports : List Report) : List Complaint :=
  reports.filterMap fun
    | .unresolved c => some c
    | _ => none

@[simp] theorem Report.complaints_append (reports more : List Report) :
    complaints (reports ++ more) = complaints reports ++ complaints more :=
  List.filterMap_append ..

/-- The greatest nesting that is followed; without a positive wish it is one thousand. -/
def depthLimit (wish : Int) : Nat := if wish < 1 then 1000 else wish.toNat

end HdlExpr
