import HdlExpr.Plain
import HdlExpr.Text.Printable

/-!
# Levels and formats

The severity of a log message is a whole number, five of which have names.
-/

namespace HdlExpr.Log

/-- A severity; greater is more severe. -/
structure Level where
  number : Int
  deriving DecidableEq, Repr, Inhabited

namespace Level

def trace : Level := ⟨-8⟩

def debug : Level := ⟨-4⟩

def info : Level := ⟨0⟩

def warn : Level := ⟨4⟩

def error : Level := ⟨8⟩

/-- The levels with names, the most verbose first. -/
def named : List (Level × String) :=
  [(trace, "trace"), (debug, "debug"), (info, "info"), (warn, "warn"), (error, "error")]

def name (l : Level) : String :=
  (named.lookup l).getD ("Level(" ++ toString l.number ++ ")")

/-- The name in capitals, as a record shows its own level. -/
def title (l : Level) : String := l.name.toUpper

/-- The next named level below, trace left out, with the distance to it. -/
def relative (l : Level) : String :=
  let from' (base : String) (start : Int) : String :=
    if l.number = start then base
    else if l.number < start then base ++ toString (l.number - start)
    else base ++ "+" ++ toString (l.number - start)
  if l.number < 0 then from' "DEBUG" (-4)
  else if l.number < 4 then from' "INFO" 0
  else if l.number < 8 then from' "WARN" 4
  else from' "ERROR" 8

def offset? (cs : List Char) : Option Int :=
  let digits := cs.drop 1
  if digits.isEmpty || !digits.all (fun c => '0' ≤ c && c ≤ '9') then none
  else
    let n : Int := digits.foldl (fun n c => n * 10 + (c.toNat - 48)) 0
    let n := if cs.head? = some '-' then -n else n
    if -halfCount ≤ n ∧ n < halfCount then some n else none

/-- The capital of a letter, as far as names of levels need it: the dotless i has the same capital
as the dotted one. -/
def capital (c : Char) : Char := if c == 'ı' then 'I' else c.toUpper

/-- The level that a text names, perhaps with an offset such as `+2`.  Numbers of levels have 64
bits and wrap around. -/
def ofText? (s : String) : Option Level :=
  let text := (Text.trim s.toList).map capital
  if text = "TRACE".toList then some trace
  else
    let base := text.takeWhile fun c => c != '+' && c != '-'
    let rest := text.drop base.length
    let start : Option Int := match String.ofList base with
      | "DEBUG" => some (-4)
      | "INFO" => some 0
      | "WARN" => some 4
      | "ERROR" => some 8
      | _ => none
    let shift := if rest.isEmpty then some 0 else offset? rest
    match start, shift with
    | some start, some shift => some ⟨(start + shift).bmod wordCount⟩
    | _, _ => none

/-- The level that a text names; what names none is the informative level. -/
def ofText (s : String) : Level := (ofText? s).getD info

end Level

/-- How records are written. -/
inductive Format where
  | text
  | json
  deriving DecidableEq, Repr, Inhabited

namespace Format

def all : List Format := [.text, .json]

def name : Format → String
  | .text => "text"
  | .json => "json"

/-- The name of the format with a number; a number without a format is named by itself. -/
def numberName : Int → String
  | 0 => "text"
  | 1 => "json"
  | n => "Format(" ++ toString n ++ ")"

/-- The format that a text names, text when it names none. -/
def ofText (s : String) : Format :=
  if (Text.trim s.toList).map Char.toLower = "json".toList then .json else .text

end Format

end HdlExpr.Log
