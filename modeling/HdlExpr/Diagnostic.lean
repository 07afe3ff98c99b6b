import HdlExpr.Tree.Basic

/-!
# Diagnostics

What an evaluation has to say about the source it was given.
-/

namespace HdlExpr

/-- The condition that a diagnostic reports. -/
inductive Diagnostic.Kind where
  /-- A name that no scope binds. -/
  | unresolvedName
  | other
  deriving DecidableEq, Repr

def Diagnostic.Kind.title : Diagnostic.Kind → String
  | .unresolvedName => "unresolved name"
  | .other => "diagnostic"

/-- A condition at a place in the source, with the closest visible name as a hint, if any. -/
structure Diagnostic where
  kind : Diagnostic.Kind
  location : Location
  name : String
  hint : String := ""
  deriving DecidableEq, Repr

namespace Diagnostic

def message (d : Diagnostic) : String :=
  d.location.text ++ ": " ++ d.kind.title ++ " " ++ d.name ++
    (if d.hint = "" then "" else " (did you mean " ++ d.hint ++ "?)")

end Diagnostic

/-- Several messages as one text, none for none. -/
def summarize? (messages : List String) : Option String :=
  match messages with
  | [] => none
  | [m] => some ("1 error occurred:\n\t* " ++ m ++ "\n\n")
  | ms => some (toString ms.length ++ " errors occurred:\n\t" ++
      "\n\t".intercalate (ms.map ("* " ++ ·)) ++ "\n\n")

end HdlExpr
