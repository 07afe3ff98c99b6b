import HdlExpr.Plain
import HdlExpr.Files.Path
import HdlExpr.Log.Level
import HdlExpr.Numeral

/-!
# Flags

What the flags of the command line are called, what values they take, and how such a value is read
from text or from the data of a configuration file.
-/

namespace HdlExpr.Cli

/-- What a flag was set to. -/
inductive Setting where
  | text (s : String)
  | truth (b : Bool)
  | number (i : Int)
  | texts (items : List String)
  deriving Inhabited

/-- What a flag takes. -/
inductive Flag.Kind where
  /-- A text, which must be one of the choices if there are any. -/
  | word (choices : List String)
  /-- Nothing, or a truth value after `=`. -/
  | switch (negatable : Bool)
  | number
  /-- Texts with commas between them. -/
  | words
  /-- A path, which is made absolute. -/
  | place
  /-- Paths with commas between them. -/
  | places

structure Flag where
  name : String
  short : Option Char := none
  kind : Flag.Kind
  default : Setting

/-! ## Reading values -/

/-- Splits a text at commas.  A backslash keeps a comma, and an empty last part is dropped. -/
def splitCommas : List Char → List Char → List String
  | part, [] => if part.isEmpty then [] else [String.ofList part.reverse]
  | part, '\\' :: c :: rest => splitCommas (if c == ',' then c :: part else c :: '\\' :: part) rest
  | part, c :: rest =>
    if c == ',' then String.ofList part.reverse :: splitCommas [] rest
    else splitCommas (c :: part) rest

/-- The base that a number's mark announces, and its digits. -/
def splitMark : List Char → Nat × List Char
  | '0' :: 'x' :: digits | '0' :: 'X' :: digits => (16, digits)
  | '0' :: 'o' :: digits | '0' :: 'O' :: digits => (8, digits)
  | '0' :: 'b' :: digits | '0' :: 'B' :: digits => (2, digits)
  | '0' :: c :: digits => (8, c :: digits)
  | digits => (10, digits)

/-- Whether each underscore stands behind a digit or a mark and before a digit; `isBehind` tells
whether there is one before the text. -/
def underscoresFit : Bool → List Char → Bool
  | isBehind, [] => isBehind
  | isBehind, '_' :: rest => isBehind && underscoresFit false rest
  | _, _ :: rest => underscoresFit true rest

/-- A whole number of 64 bits, in the base that its mark announces. -/
def wholeNumber? (s : String) : Option Int :=
  let (negative, cs) := Numeral.splitSign s.toList
  let (base, marked) := splitMark cs
  let digits := marked.filter (· != '_')
  let n := digits.foldl (fun n c => n * base + Numeral.digitValue c) 0
  if digits.isEmpty || !digits.all (fun c => decide (Numeral.digitValue c < base)) ||
      !underscoresFit (base != 10) marked then none
  else if negative then (if n ≤ halfCount then some (-n) else none)
  else if n < halfCount then some n else none

/-- A real rounded to a whole number of 64 bits, ties to even. -/
def rounded? (x : Float) : Option Int :=
  let below := x.floor
  let gap := x - below
  let even := (below / 2.0).floor * 2.0 == below
  let nearest := if gap < 0.5 || (gap == 0.5 && even) then below else below + 1.0
  if -9223372036854775808.0 ≤ nearest && nearest < 9223372036854775808.0 then
    some nearest.toInt64.toInt
  else none

/-- The truth value that a word names. -/
def truth? (s : String) : Option Bool :=
  match String.ofList (s.toList.map Char.toLower) with
  | "true" | "1" | "yes" => some true
  | "false" | "0" | "no" => some false
  | _ => none

/-- The texts in a list that holds nothing else; a null is an empty text. -/
def textItems? (items : List Plain) : Option (List String) :=
  items.mapM fun
    | .text s => some s
    | .null => some ""
    | _ => none

namespace Flag

/-- The setting that a value makes, given the setting made before it: lists grow, all else is
replaced.  Values of text come from the command line or a configuration file; others come from a
configuration file only. -/
def read (workingDirectory : String) (kind : Kind) (before : Option Setting) (value : Plain) :
    Option Setting :=
  let earlier := match before with
    | some (.texts items) => items
    | _ => []
  let expand := Files.absolute workingDirectory
  match kind, value with
  | .word _, .text s => some (.text s)
  | .switch _, .bool b => some (.truth b)
  | .switch _, .text s => (truth? s).map .truth
  | .number, .text s => (wholeNumber? s).map .number
  | .number, .real x => (rounded? x).map .number
  | .words, .text s => some (.texts (earlier ++ splitCommas [] s.toList))
  | .words, .list items | .places, .list items => (textItems? items).map .texts
  | .place, .text s => some (.text (if s = "-" then s else expand s))
  | .places, .text s =>
    some (.texts (earlier ++ (splitCommas [] s.toList).map fun p =>
      if p = "-" then p else expand p))
  | _, _ => none

def admits (f : Flag) (s : Setting) : Bool :=
  match f.kind, s with
  | .word choices, .text s => choices.isEmpty || choices.contains s
  | _, _ => true

end Flag

/-! ## All flags -/

def globalFlags : List Flag :=
  [ { name := "log-level", kind := .word (Log.Level.named.map (·.2)), default := .text "info" },
    { name := "log-format", kind := .word ["text", "json"], default := .text "text" },
    { name := "log-time-layout", kind := .word [], default := .text "RFC3339" },
    { name := "log-caller", kind := .switch true, default := .truth false },
    { name := "log-pretty", kind := .switch true, default := .truth true },
    { name := "path", short := 'I', kind := .places, default := .texts [] } ]

inductive Command where
  | eval
  | lower
  | batch
  | tags
  | init
  | version
  deriving DecidableEq, Repr

/-- How many arguments follow a command. -/
inductive Arity where
  | none
  | optional
  | some
  deriving DecidableEq

namespace Command

def all : List Command := [.eval, .lower, .batch, .tags, .init, .version]

def name : Command → String
  | .eval => "eval"
  | .lower => "lower"
  | .batch => "batch"
  | .tags => "tags"
  | .init => "init"
  | .version => "version"

def ofName? (s : String) : Option Command := all.find? (·.name = s)

def arity : Command → Arity
  | .eval | .lower | .batch => .some
  | .tags => .optional
  | .init | .version => .none

def depthFlag : Flag := { name := "max-depth", kind := .number, default := .number 1000 }

def substituteFlag : Flag :=
  { name := "no-substitute", kind := .switch false, default := .truth false }

def sourceFlags : List Flag :=
  [ { name := "name", short := 'n', kind := .words, default := .texts [] },
    { name := "define", short := 'D', kind := .words, default := .texts [] },
    depthFlag ]

def formatFlag (choices : List String) : Flag :=
  { name := "format", short := 'o', kind := .word choices, default := .text (choices.headD "") }

def flags : Command → List Flag
  | .eval =>
    sourceFlags ++
      [{ name := "mute", kind := .switch false, default := .truth false },
       formatFlag ["text", "json", "yaml"]]
  | .lower =>
    sourceFlags ++ [substituteFlag, formatFlag ["tree", "compact", "json", "yaml", "dump"]]
  | .batch =>
    [{ name := "jobs", short := 'j', kind := .number, default := .number 0 },
     { name := "metrics", kind := .place, default := .text "" },
     substituteFlag, depthFlag]
  | .tags =>
    [{ name := "case", short := 'c', kind := .word ["canonical", "snake", "camel", "kebab"],
       default := .text "canonical" }]
  | .init => [{ name := "force", short := 'f', kind := .switch false, default := .truth false }]
  | .version => []

end Command

end HdlExpr.Cli
