import HdlExpr.Log.Line

/-!
# Loggers

A logger decides which records are written and how.  It may carry attributes and open groups for
all its records.  The silent logger writes nothing and is enabled for nothing.
-/

namespace HdlExpr.Log

/-- What was added to a logger: attributes for every record, or a group around what follows. -/
inductive Addition where
  | attrs (attrs : List Attr)
  | group (name : String)

/-! ## Layouts of times -/

namespace Layout

def named : List (String × String) :=
  [("rfc3339", "2006-01-02T15:04:05Z07:00"),
   ("rfc3339nano", "2006-01-02T15:04:05.999999999Z07:00"),
   ("ansic", "Mon Jan _2 15:04:05 2006"), ("unixdate", "Mon Jan _2 15:04:05 MST 2006"),
   ("rubydate", "Mon Jan 02 15:04:05 -0700 2006"), ("rfc822", "02 Jan 06 15:04 MST"),
   ("rfc822z", "02 Jan 06 15:04 -0700"), ("rfc850", "Monday, 02-Jan-06 15:04:05 MST"),
   ("kitchen", "3:04PM"), ("datetime", "2006-01-02 15:04:05"), ("timeonly", "15:04:05"),
   ("stamp", "Jan _2 15:04:05"), ("stampmilli", "Jan _2 15:04:05.000"),
   ("ms", "Jan _2 15:04:05.000"), ("stampmicro", "Jan _2 15:04:05.000000"),
   ("us", "Jan _2 15:04:05.000000"), ("stampnano", "Jan _2 15:04:05.000000000"),
   ("ns", "Jan _2 15:04:05.000000000"), ("none", "")]

/-- The small letter of a letter, as far as names of layouts need it. -/
def small (c : Char) : Char :=
  if c == '\u212a' then 'k' else if c == '\u0130' then 'i' else c.toLower

/-- The small letters and digits of a layout, by which the well-known ones are found. -/
def key (layout : String) : String :=
  String.ofList <| (layout.toList.map small).filter fun c =>
    ('a' ≤ c && c ≤ 'z') || ('0' ≤ c && c ≤ '9')

/-- The layout that a text stands for: the one it names, or itself. -/
def resolve (layout : String) : String := (named.lookup (key layout)).getD layout

/-- A text for every time where there is no clock: one that shows a clock is left out. -/
def withoutClock (layout : String) (_ : Int) : String :=
  if named.any (·.2 == layout) then "" else layout

end Layout

/-- How a logger writes. -/
structure Config where
  level : Level := .info
  format : Format := .text
  pretty : Bool := true
  /-- Whether it is told where a record was made. -/
  caller : Bool := false
  layout : String := "RFC3339"
  /-- How a time is written in a layout. -/
  render : String → Int → String := Layout.withoutClock
  palette : Palette := .plain

structure Logger where
  /-- Nothing is written and nothing enabled. -/
  silent : Bool := true
  /-- Whether what is written goes anywhere. -/
  connected : Bool := false
  config : Config := {}
  /-- In the order in which they were added. -/
  additions : List Addition := []

namespace Config

/-- The text of a time; an empty one is left out. -/
def formatTime (c : Config) (t : Int) : String :=
  let layout := Layout.resolve c.layout
  if (Text.trim layout.toList).isEmpty then "" else c.render layout t

/-- Where a record was made.  Pretty text says nothing of what is not known. -/
def source (c : Config) (o : Origin) : List Attr :=
  if c.caller then
    match c.format with
    | .json => [.source "source" (o.source.getD {})]
    | .text =>
      if c.pretty then (o.source.map fun s => Attr.text "source" s.text).toList
      else [.text "source" (o.source.getD {}).text]
  else []

/-- The time, the level, the source and the message of a record. -/
def head (c : Config) (r : Record) (o : Origin) : List Attr :=
  (o.time.map fun t => Attr.leaf "time" (.time t)).toList ++
    .leaf "level" (.level r.level) :: c.source o ++ [.text "msg" r.message]

end Config

namespace Logger

def zero : Logger := {}

def make (config : Config) : Logger := { silent := false, connected := true, config }

/-- A logger that throws away what it writes. -/
def disconnected (config : Config) : Logger := { silent := false, config }

/-- A logger that is enabled only above all named levels. -/
def discard : Logger := disconnected { level := ⟨9⟩ }

def level (l : Logger) : Level := if l.silent then .info else l.config.level

def format (l : Logger) : Format := if l.silent then .text else l.config.format

def isEnabled (l : Logger) (level : Level) : Bool :=
  !l.silent && l.config.level.number ≤ level.number

/-- Adds attributes to every record. -/
def withAttrs (l : Logger) (attrs : List Attr) : Logger :=
  if l.silent then l else { l with additions := l.additions ++ [.attrs attrs] }

/-- Opens a group around all that is added later. -/
def withGroup (l : Logger) (name : String) : Logger :=
  if name = "" then l else { l with additions := l.additions ++ [.group name] }

/-- A logger with another configuration and nothing added.  The silent logger becomes one that
throws its lines away. -/
def reconfigure (l : Logger) (f : Config → Config) : Logger :=
  if l.silent then disconnected (f {}) else { l with config := f l.config, additions := [] }

/-- Attributes inside the groups that were open when they were added, around those of the record
itself. -/
def nest (additions : List Addition) (attrs : List Attr) : List Attr :=
  match additions with
  | [] => attrs
  | .attrs more :: rest => more ++ nest rest attrs
  | .group name :: rest => [.group name (nest rest attrs)]

def groups (l : Logger) : List String :=
  l.additions.filterMap fun
    | .group name => some name
    | .attrs _ => none

def added (l : Logger) : List Attr :=
  l.additions.flatMap fun
    | .attrs attrs => attrs
    | .group _ => []

/-- The line of a record.  Plain text and JSON put each attribute into the groups that were open
when it was added; pretty text puts all into all groups. -/
def line (l : Logger) (r : Record) (o : Origin := {}) : String :=
  let c := l.config
  let shown := Attr.shownAll c.formatTime
  match c.format with
  | .json => jsonLine (shown (c.head r o ++ nest l.additions r.attrs))
  | .text =>
    if c.pretty then prettyLine c.palette (shown (c.head r o)) l.groups (shown (l.added ++ r.attrs))
    else plainLine (shown (c.head r o ++ nest l.additions r.attrs))

/-- What is written for a record, each line with its end. -/
def write (l : Logger) (r : Record) (o : Origin := {}) : String :=
  if l.isEnabled r.level && l.connected then l.line r o ++ "\n" else ""

def writeAll (l : Logger) (rs : List Record) : String := String.join (rs.map l.write)

/-- What is written for the reports of an evaluation or a lowering. -/
def writeReports (l : Logger) (reports : List Report) : String :=
  l.writeAll (reports.filterMap Record.ofReport?)

end Logger

end HdlExpr.Log
