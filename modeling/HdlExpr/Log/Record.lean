import HdlExpr.Log.Level
import HdlExpr.Report

/-!
# Records

A log record is a message of some level with attributes.  Attributes have keys and may be grouped.
-/

namespace HdlExpr.Log

/-- A single value in a record. -/
inductive Datum where
  | text (s : String)
  | int (i : Int)
  | uint (n : Nat)
  | real (x : Float)
  | bool (b : Bool)
  | duration (nanoseconds : Int)
  /-- A point in time, in seconds of the Unix epoch. -/
  | time (seconds : Int)
  | level (l : Level)
  deriving Inhabited

/-- A value or a group of attributes under a key, or nothing at all. -/
inductive Attr where
  | empty
  | leaf (key : String) (datum : Datum)
  | group (key : String) (members : List Attr)
  deriving Inhabited

structure Record where
  level : Level
  message : String
  attrs : List Attr := []
  deriving Inhabited

/-- A line of a program. -/
structure Source where
  function : String := ""
  file : String := ""
  line : Nat := 0

/-- When and where a record was made, as far as that is known. -/
structure Origin where
  /-- In seconds of the Unix epoch. -/
  time : Option Int := some 0
  source : Option Source := none

/-- `file:line` -/
def Source.text (s : Source) : String := s.file ++ ":" ++ toString s.line

namespace Attr

def text (key s : String) : Attr := .leaf key (.text s)

def int (key : String) (i : Int) : Attr := .leaf key (.int i)

def bool (key : String) (b : Bool) : Attr := .leaf key (.bool b)

/-- A value, as values show themselves in logs. -/
def value (key : String) (v : Value) : Attr := text key v.logText

/-- A line of a program as a group of what is known of it. -/
def source (key : String) (s : Source) : Attr :=
  .group key <|
    (if s.function = "" then [] else [text "function" s.function]) ++
      (if s.file = "" then [] else [text "file" s.file]) ++
      (if s.line = 0 then [] else [int "line" s.line])

def diagnostic (key : String) (d : Diagnostic) : Attr :=
  .group key <|
    [text "kind" d.kind.title, text "location" d.location.text, text "name" d.name] ++
      (if d.hint = "" then [] else [text "hint" d.hint])

end Attr

def Record.ofDiagnostic (d : Diagnostic) : Record :=
  ⟨.warn, d.kind.title, [.diagnostic "diagnostic" d]⟩

/-- The record of a report about the work itself; complaints go to their own readers. -/
def Record.ofReport? : Report → Option Record
  | .unresolved _ => none
  | .tooDeepToFold limit place =>
    some ⟨.warn, "expression too deep to fold",
      [.int "max_depth" limit, .text "location" place.text]⟩
  | .tooDeepToLower limit place =>
    some ⟨.warn, "expression too deep to lower",
      [.int "max_depth" limit, .text "location" place.text]⟩
  | .folded shape place value =>
    some ⟨.trace, "fold",
      [.text "shape" shape.title, .text "location" place.text, .value "value" value]⟩
  | .lowered shape place kind =>
    some ⟨.trace, "lower",
      [.text "shape" shape.title, .text "location" place.text] ++
        (kind.map fun k => Attr.text "kind" k.name).toList⟩
  | .substituted name value =>
    some ⟨.trace, "substitute", [.text "name" name, .value "value" value]⟩

/-- The records of reports, with those of diagnostics for complaints, up to a search that breaks
down; and whether none does. -/
def Record.ofReports (suggest : Suggest) : List Report → List Record × Bool
  | [] => ([], true)
  | .unresolved c :: rest =>
    match c.diagnostic? suggest with
    | none => ([], false)
    | some d =>
      let (records, whole) := ofReports suggest rest
      (ofDiagnostic d :: records, whole)
  | r :: rest =>
    let (records, whole) := ofReports suggest rest
    ((ofReport? r).toList ++ records, whole)

end HdlExpr.Log
