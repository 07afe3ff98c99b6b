import HdlExpr.Cli.Config
import HdlExpr.Cli.Flag
import HdlExpr.Plain
import HdlExpr.Log.Logger

/-!
# Invocations

What a command line asks for: a command, its arguments, and settings for its flags.  Flags of all
commands may stand before the command or after it.
-/

namespace HdlExpr.Cli

/-- A part of the command line. -/
inductive Part where
  /-- An argument that has not been looked at. -/
  | whole (s : String)
  | long (name : String)
  | short (c : Char)
  /-- What stands behind a short flag in the same argument. -/
  | tail (cs : List Char)
  /-- What stands behind `=`. -/
  | value (s : String)
  | positional (s : String)

namespace Part

def text : Part → String
  | .whole s | .value s | .positional s => s
  | .long name => "--" ++ name
  | .short c => "-" ++ c.toString
  | .tail cs => String.ofList cs

/-- Whether a part can be the value of a flag that takes one. -/
def isValue : Part → Bool
  | .whole s => s = "-" || !s.startsWith "-"
  | .value _ | .tail _ | .positional _ => true
  | .long _ | .short _ => false

/-- Whether each text between the commas of a part can be a value. -/
def isListValue : Part → Bool
  | .whole s => (splitCommas [] s.toList).all fun item => isValue (.whole item)
  | part => part.isValue

def split (s : String) : List Part :=
  match s.toList with
  | '-' :: '-' :: cs =>
    let name := cs.takeWhile (· != '=')
    .long (String.ofList name) ::
      match cs.drop name.length with
      | [] => []
      | _ :: assigned => [.value (String.ofList assigned)]
  | ['-'] => [.positional "-"]
  | '-' :: c :: cs => .short c :: (if cs.isEmpty then [] else [.tail cs])
  | _ => [.positional s]

end Part

structure Invocation where
  command : Command
  arguments : List String := []
  settings : List (String × Setting) := []

/-- What has been read of a command line. -/
structure Reading where
  command : Option Command := none
  arguments : List String := []
  /-- Whether the arguments of the command have been read. -/
  isDone : Bool := false
  settings : List (String × Setting) := []
  /-- The flags that were negated; further values of them are negated too. -/
  negated : List String := []

namespace Reading

/-- The flags that may stand here. -/
def flags (r : Reading) : List Flag :=
  globalFlags ++ (r.command.map (·.flags)).getD []

def negatedName (f : Flag) : Option String :=
  match f.kind with
  | .switch true => some ("no-" ++ f.name)
  | _ => none

def isNegation (f : Flag) : Part → Bool
  | .long name => negatedName f = some name
  | _ => false

def find? (r : Reading) : Part → Option Flag
  | .long name => r.flags.find? fun f => f.name = name || isNegation f (.long name)
  | .short c => r.flags.find? fun f => f.short = some c
  | _ => none

def set (r : Reading) (name : String) (s : Setting) : Reading :=
  { r with settings := (name, s) :: r.settings.filter (·.1 != name) }

/-- Takes the value of a flag from the parts after it.  A switch takes only what stands behind
`=`. -/
def takeValue (f : Flag) (parts : List Part) : Option (Plain × List Part) :=
  match f.kind, parts with
  | .switch _, .value s :: rest => some (.text s, rest)
  | .switch _, rest => some (.bool true, rest)
  | .words, p :: rest | .places, p :: rest =>
    if p.isListValue then some (.text p.text, rest) else none
  | _, p :: rest => if p.isValue then some (.text p.text, rest) else none
  | _, [] => none

/-- Turns a truth value round. -/
def negate : Setting → Setting
  | .truth b => .truth !b
  | s => s

def readFlag (workingDirectory : String) (r : Reading) (part : Part) (parts : List Part) :
    Option (Reading × List Part) := do
  let f ← r.find? part
  let r := if isNegation f part then { r with negated := f.name :: r.negated } else r
  let (value, rest) ← takeValue f parts
  let setting ← Flag.read workingDirectory f.kind (r.settings.lookup f.name) value
  some (r.set f.name (if r.negated.contains f.name then negate setting else setting), rest)

/-- Reads an argument that is no flag: those of the command, or the command itself. -/
def readPositional (r : Reading) (s : String) (parts : List Part) :
    Option (Reading × List Part) :=
  match r.command with
  | none => (Command.ofName? s).map fun c => ({ r with command := c }, parts)
  | some c =>
    match c.arity, r.isDone with
    | .some, false =>
      let more := parts.takeWhile (·.isValue)
      some ({ r with arguments := s :: more.map (·.text), isDone := true }, parts.drop more.length)
    | .optional, false => some ({ r with arguments := [s], isDone := true }, parts)
    | _, _ => none

def readParts (workingDirectory : String) : Nat → Reading → List Part → Option Reading
  | _, r, [] => some r
  | 0, _, _ => none
  | fuel + 1, r, part :: rest =>
    match part with
    | .whole "--" => readParts workingDirectory fuel r (rest.map fun p => .positional p.text)
    | .whole s => readParts workingDirectory fuel r (Part.split s ++ rest)
    | .tail [] => readParts workingDirectory fuel r rest
    | .tail (c :: cs) =>
      readParts workingDirectory fuel r
        (.short c :: (if cs.isEmpty then rest else .tail cs :: rest))
    | .long _ | .short _ => do
      let (r, rest) ← r.readFlag workingDirectory part rest
      readParts workingDirectory fuel r rest
    | .positional s => do
      let (r, rest) ← r.readPositional s rest
      readParts workingDirectory fuel r rest
    | .value _ => none

/-- Takes the settings of flags that the command line left out from configuration files; of two
files the first counts. -/
def configure (workingDirectory : String) (sources : List (String → Option Plain)) (r : Reading) :
    List Flag → Option Reading
  | [] => some r
  | f :: rest =>
    match r.settings.lookup f.name, sources.findSome? (· f.name) with
    | none, some value => do
      let setting ← Flag.read workingDirectory f.kind none value
      configure workingDirectory sources (r.set f.name setting) rest
    | _, _ => configure workingDirectory sources r rest

/-- Whether all settings are among the choices and no argument is missing. -/
def isComplete (r : Reading) (c : Command) : Bool :=
  (r.flags.all fun f => ((r.settings.lookup f.name).map f.admits).getD true) &&
    (c.arity != .some || r.isDone)

end Reading

namespace Invocation

/-- The invocation that arguments and configuration files make. -/
def read (workingDirectory : String) (sources : List (String → Option Plain))
    (arguments : List String) : Option Invocation := do
  let fuel := total (arguments.map fun s => 3 * s.length + 3)
  let r ← Reading.readParts workingDirectory fuel {} (arguments.map .whole)
  let c ← r.command
  let r ← r.configure workingDirectory sources r.flags
  if r.isComplete c then
    some { command := c, arguments := r.arguments, settings := r.settings }
  else none

/-! ## Settings -/

def flags (i : Invocation) : List Flag := globalFlags ++ i.command.flags

/-- The setting of a flag, by default its own. -/
def setting (i : Invocation) (name : String) : Setting :=
  (i.settings.lookup name).getD (((i.flags.find? (·.name = name)).map (·.default)).getD (.text ""))

def text (i : Invocation) (name : String) : String :=
  match i.setting name with
  | .text s => s
  | _ => ""

def isSet (i : Invocation) (name : String) : Bool :=
  match i.setting name with
  | .truth b => b
  | _ => false

def number (i : Invocation) (name : String) : Int :=
  match i.setting name with
  | .number n => n
  | _ => 0

def texts (i : Invocation) (name : String) : List String :=
  match i.setting name with
  | .texts items => items
  | _ => []

def log (i : Invocation) : Log.Config :=
  { level := .ofText (i.text "log-level")
    format := .ofText (i.text "log-format")
    layout := i.text "log-time-layout"
    caller := i.isSet "log-caller"
    pretty := i.isSet "log-pretty" }

def logRecord (i : Invocation) : Log.Record :=
  ⟨.debug, "logger initialized",
    [.text "level" (i.text "log-level"), .text "format" (i.text "log-format"),
     .text "time" (i.text "log-time-layout"), .bool "caller" (i.isSet "log-caller"),
     .bool "pretty" (i.isSet "log-pretty")]⟩

end Invocation

end HdlExpr.Cli
