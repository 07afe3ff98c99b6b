import HdlExpr.Log.Moment
import HdlExpr.Log.Record
import HdlExpr.Text.Quoted
import HdlExpr.Text.Typeset

/-!
# Lines of a log

A record is written as one line in one of three ways.  Plain text has fields `key=value`, quoted
where a reader could be misled, with the keys of groups joined by points.  JSON has one object with
groups as objects inside it.  Pretty text has fields like plain text but quotes nothing.
-/

namespace HdlExpr.Log

/-! ## What is shown -/

/-- An attribute called `level` shows a level by its name, and one called `time` shows a time in
the way of the log, and not at all if that has no text for it. -/
def Datum.shown? (formatTime : Int → String) (key : String) (d : Datum) : Option Datum :=
  match d with
  | .time t =>
    if key = "time" then
      let text := formatTime t
      if text = "" then none else some (.text text)
    else some d
  | .level l => if key = "level" then some (.text l.title) else some d
  | _ => some d

mutual

/-- The attributes that are shown: nothing empty, and nothing that has no text. -/
def Attr.shown (formatTime : Int → String) : Attr → List Attr
  | .empty => []
  | .leaf key d => ((d.shown? formatTime key).map (Attr.leaf key)).toList
  | .group key members =>
    match Attr.shownAll formatTime members with
    | [] => []
    | shown => if key = "" then shown else [.group key shown]

def Attr.shownAll (formatTime : Int → String) : List Attr → List Attr
  | [] => []
  | a :: rest => a.shown formatTime ++ Attr.shownAll formatTime rest

end

/-! ## Plain text -/

/-- Whether a text could be misread without quotes. -/
def needsQuotes (s : String) : Bool :=
  s.isEmpty || s.toList.any fun c =>
    let n := c.toNat
    if n < 0x80 then n < 0x20 || c == ' ' || c == '=' || c == '"'
    else n == 0xfffd || !Text.isPrintable c

def quoteIfNeeded (s : String) : String := if needsQuotes s then Text.quote s else s

def quoteKey (path key : String) : String :=
  if path.isEmpty then quoteIfNeeded key
  else if needsQuotes path || needsQuotes key then Text.quote (path ++ key)
  else path ++ key

def Datum.plain : Datum → String
  | .text s => quoteIfNeeded s
  | .int i => toString i
  | .uint n => toString n
  | .real x => Decimal.Layout.general.float x
  | .bool b => toString b
  | .duration d => Duration.text d
  | .time t => (Moment.ofUnix t).internetMillis
  | .level l => l.relative

mutual

/-- The fields of an attribute whose groups are spelled in `path`. -/
def Attr.plainFields (path : String) : Attr → List String
  | .empty => []
  | .leaf key d => [quoteKey path key ++ "=" ++ d.plain]
  | .group key members =>
    Attr.plainFieldsOf (if key = "" then path else path ++ key ++ ".") members

def Attr.plainFieldsOf (path : String) : List Attr → List String
  | [] => []
  | a :: rest => a.plainFields path ++ Attr.plainFieldsOf path rest

end

def plainLine (attrs : List Attr) : String := " ".intercalate (Attr.plainFieldsOf "" attrs)

/-! ## JSON -/

def jsonFloat (x : Float) : String :=
  if x.isNaN || x.isInf then
    Text.jsonString false ("!ERROR:json: unsupported value: " ++ Decimal.Layout.general.float x)
  else Decimal.Layout.json.float x

def jsonMoment (m : Moment) : String :=
  Text.jsonString false <|
    if m.isCommon then m.internet else "!ERROR:time.Time year outside of range [0,9999]"

def Datum.json : Datum → String
  | .text s => Text.jsonString false s
  | .int i => toString i
  | .uint n => toString n
  | .real x => jsonFloat x
  | .bool b => toString b
  | .duration d => toString d
  | .time t => jsonMoment (Moment.ofUnix t)
  | .level l => Text.jsonString false l.relative

mutual

def Attr.jsonFields : Attr → List String
  | .empty => []
  | .leaf key d => [Text.jsonString false key ++ ":" ++ d.json]
  | .group key members =>
    let fields := Attr.jsonFieldsOf members
    if key = "" then fields
    else [Text.jsonString false key ++ ":\x7b" ++ ",".intercalate fields ++ "\x7d"]

def Attr.jsonFieldsOf : List Attr → List String
  | [] => []
  | a :: rest => a.jsonFields ++ Attr.jsonFieldsOf rest

end

def jsonLine (attrs : List Attr) : String :=
  "\x7b" ++ ",".intercalate (Attr.jsonFieldsOf attrs) ++ "\x7d"

/-! ## Pretty text -/

/-- The styles of pretty text.  A style may lay a text out anew. -/
structure Palette where
  key : String → String
  text : String → String
  number : String → String
  time : String → String
  duration : String → String
  yes : String → String
  no : String → String
  /-- For each of the named levels. -/
  level : Level → String → String

namespace Palette

/-- All styles without colors, which only lay out. -/
def plain : Palette :=
  { key := Text.typeset, text := Text.typeset, number := Text.typeset, time := Text.typeset,
    duration := Text.typeset, yes := Text.typeset, no := Text.typeset,
    level := fun _ => Text.typeset }

/-- The style of the most severe named level that a level reaches. -/
def levelStyle (p : Palette) (l : Level) : String → String :=
  p.level <|
    if Level.error.number ≤ l.number then .error
    else if Level.warn.number ≤ l.number then .warn
    else if Level.info.number ≤ l.number then .info
    else if Level.debug.number ≤ l.number then .debug
    else .trace

end Palette

/-- A text called `level` has the style of the level it names. -/
def Datum.pretty (p : Palette) (key : String) : Datum → String
  | .text s => if key = "level" then p.levelStyle (.ofText s) s else p.text s
  | .int i => p.number (toString i)
  | .uint n => p.number (toString n)
  | .real x => p.number (Decimal.Layout.general.float x)
  | .bool true => p.yes "true"
  | .bool false => p.no "false"
  | .duration d => p.duration (Duration.text d)
  | .time t => p.time (Moment.ofUnix t).plain
  | .level l => p.levelStyle l l.title

/-- A key behind the names of its groups. -/
def prettyKey (path : List String) (key : String) : String :=
  if path.isEmpty then key else ".".intercalate path ++ "." ++ key

mutual

/-- The fields of an attribute inside the groups of `path`. -/
def Attr.prettyFields (p : Palette) (path : List String) : Attr → List String
  | .empty => []
  | .leaf key d => [p.key (prettyKey path key) ++ "=" ++ d.pretty p key]
  | .group key members => Attr.prettyFieldsOf p (if key = "" then path else path ++ [key]) members

def Attr.prettyFieldsOf (p : Palette) (path : List String) : List Attr → List String
  | [] => []
  | a :: rest => a.prettyFields p path ++ Attr.prettyFieldsOf p path rest

end

/-- A line of pretty text: the head of the record, then its attributes inside some groups. -/
def prettyLine (p : Palette) (head : List Attr) (groups : List String) (attrs : List Attr) :
    String :=
  " ".intercalate (Attr.prettyFieldsOf p [] head ++ Attr.prettyFieldsOf p groups attrs)

end HdlExpr.Log
