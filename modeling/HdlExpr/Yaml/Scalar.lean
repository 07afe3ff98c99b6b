import HdlExpr.Plain
import HdlExpr.Decimal.Layout
import HdlExpr.Numeral

/-!
# Plain scalars

What an unquoted word of a YAML document means: a null, a truth value, a number, or text.
-/

namespace HdlExpr.Yaml

/-- The base that a number's mark announces, and its digits.  A zero before other digits announces
base eight. -/
def baseOf : List Char → Nat × List Char
  | '0' :: 'x' :: digits => (16, digits)
  | '0' :: 'o' :: digits => (8, digits)
  | '0' :: 'b' :: digits => (2, digits)
  | '0' :: c :: digits => (8, '0' :: c :: digits)
  | digits => (10, digits)

/-- The number that digits write, if they are all digits of the base. -/
def digitsNumber? (base : Nat) (digits : List Char) : Option Nat :=
  if digits ≠ [] ∧ digits.all (fun c => decide (Numeral.digitValue c < base)) then
    some (digits.foldl (fun n c => n * base + Numeral.digitValue c) 0)
  else none

/-- A whole number of 64 bits: unsigned, or signed after a minus. -/
def whole? (negative : Bool) (digits : List Char) : Option Plain :=
  let (base, digits) := baseOf digits
  match digitsNumber? base digits with
  | some n =>
    if negative then (if n ≤ halfCount then some (.int (-n)) else none)
    else if n < wordCount then some (.uint n) else none
  | none => none

/-- A text with a minus before it, where there is one. -/
def signed (negative : Bool) (digits : List Char) : List Char :=
  if negative then '-' :: digits else digits

def pointed? (negative : Bool) (digits : List Char) : Option Plain :=
  let text := signed negative digits
  let x := Numeral.readReal text
  if Numeral.realPrefix text = text.length ∧ x.isFinite then some (.real x) else none

/-- Takes at most one plus and then at most one minus from the front. -/
def dropSigns (cs : List Char) : List Char :=
  let cs := match cs with
    | '+' :: rest => rest
    | cs => cs
  match cs with
  | '-' :: rest => rest
  | cs => cs

/-- How a word would write a number: its digits as a whole number or as a real, and whether it has a
minus.  Underscores may stand between digits, and a real has exactly one point, so that `1e3` is no
number. -/
inductive Numerals where
  | whole (negative : Bool) (digits : List Char)
  | pointed (negative : Bool) (digits : List Char)

/-- How a word would write a number. -/
def numerals? (word : List Char) : Option Numerals :=
  match word with
  | [] | '_' :: _ => none
  | first :: _ =>
    let negative := first == '-'
    let digits := (dropSigns word).filter (· != '_')
    match digits.take 2, word.count '.' with
    | ['0', 'x'], n | ['0', 'o'], n | ['0', 'b'], n =>
      if n ≤ 1 then some (.whole negative digits) else none
    | _, 0 => some (.whole negative digits)
    | _, 1 => some (.pointed negative digits)
    | _, _ => none

def number? (word : List Char) : Option Plain :=
  match numerals? word with
  | some (.whole negative digits) => whole? negative digits
  | some (.pointed negative digits) => pointed? negative digits
  | none => none

/-- Whether digits leave the range of a word before a character that is no digit, after what `n`
holds already. -/
def exceedsWord (base : Nat) : Nat → List Char → Bool
  | _, [] => false
  | n, c :: rest =>
    let d := Numeral.digitValue c
    if base ≤ d then false
    else if wordCount ≤ n * base + d then true
    else exceedsWord base (n * base + d) rest

/-- Whether a word is a number, be it one that is too large. -/
def isNumber (word : List Char) : Bool :=
  (number? word).isSome ||
    match numerals? word with
    | some (.whole negative digits) =>
      let (base, digits) := baseOf digits
      exceedsWord base 0 digits || (negative && (digitsNumber? base digits).isSome)
    | some (.pointed negative digits) =>
      let text := signed negative digits
      Numeral.realPrefix text = text.length
    | none => false

def resolve (word : List Char) : Plain :=
  match String.ofList word with
  | "" | "~" | "null" | "Null" | "NULL" => .null
  | "true" | "True" | "TRUE" => .bool true
  | "false" | "False" | "FALSE" => .bool false
  | ".inf" | ".Inf" | ".INF" => .real (1.0 / 0.0)
  | "-.inf" | "-.Inf" | "-.INF" => .real (-1.0 / 0.0)
  | ".nan" | ".NaN" | ".NAN" => .real (0.0 / 0.0)
  | text => (number? word).getD (.text text)

def scalarText? : Plain → Option String
  | .null => some ""
  | .bool b => some (if b then "true" else "false")
  | .int i => some (toString i)
  | .uint n => some (toString n)
  | .real x => some (Decimal.Layout.general.float x)
  | .text s => some s
  | .list _ | .map _ => none

def keyText? : Plain → Option String
  | .null => some "null"
  | v => scalarText? v

end HdlExpr.Yaml
