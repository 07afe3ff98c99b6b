import HdlExpr.Numeral

/-!
# Literal text

How the text of an integer literal says its base, the kind under which it is carried as a
constant, and the value it folds to.
-/

namespace HdlExpr.Literal

/-- The base that an integer literal names. -/
inductive Radix where
  /-- No apostrophe: decimal. -/
  | plain
  | hex
  | bin
  | oct
  | dec
  /-- An apostrophe without one of the four base letters after it. -/
  | unknown
  deriving DecidableEq, Repr

def Radix.name : Radix → String
  | .plain => "plain"
  | .hex => "hex"
  | .bin => "bin"
  | .oct => "oct"
  | .dec => "dec"
  | .unknown => "unknown"

def Radix.base : Radix → Nat
  | .hex => 16
  | .bin => 2
  | .oct => 8
  | .plain | .dec => 10
  | .unknown => 0

/-- The base letter after an apostrophe; only small letters count. -/
def Radix.ofLetter : Char → Radix
  | 'h' => .hex
  | 'b' => .bin
  | 'o' => .oct
  | 'd' => .dec
  | _ => .unknown

/-- The text after the first apostrophe, if there is one. -/
def afterTick : List Char → Option (List Char)
  | [] => none
  | c :: rest => if c = '\'' then some rest else afterTick rest

/-- The radix of an integer literal and the digits that it governs.  What stands before the
apostrophe is ignored. -/
def integer (text : String) : Radix × String :=
  match afterTick text.toList with
  | none => (.plain, text)
  | some [] => (.unknown, "")
  | some (letter :: digits) =>
    match Radix.ofLetter letter with
    | .unknown => (.unknown, "")
    | radix => (radix, String.ofList digits)

/-- The kind of constant that carries an integer literal. -/
inductive Kind where
  | int
  | hex
  | bin
  | oct
  deriving DecidableEq, Repr

def Kind.name : Kind → String
  | .int => "INT"
  | .hex => "HEX"
  | .bin => "BIN"
  | .oct => "OCT"

/-- Whether an apostrophe with this letter after it occurs anywhere. -/
def hasTick (letter : Char) : List Char → Bool
  | c :: d :: rest => (c == '\'' && d == letter) || hasTick letter (d :: rest)
  | _ => false

/-- The kind of an integer literal: the first of `'h`, `'b` and `'o` that occurs decides, any
other apostrophe means binary, and none decimal. -/
def kind (text : String) : Kind :=
  let cs := text.toList
  if hasTick 'h' cs then .hex
  else if hasTick 'b' cs then .bin
  else if hasTick 'o' cs then .oct
  else if cs.contains '\'' then .bin
  else .int

/-- The characters between the quotes at both ends, or the whole text when they are missing. -/
def unquoteChars : List Char → List Char
  | '"' :: rest => if rest.getLast? = some '"' then rest.dropLast else '"' :: rest
  | cs => cs

/-- The text without one pair of double quotes around it. -/
def unquote (text : String) : String := String.ofList (unquoteChars text.toList)

/-- The value of an integer literal: signed without an apostrophe, otherwise unsigned, and zero
when its base is unknown. -/
def value (text : String) : Value :=
  match integer text with
  | (.plain, _) => Value.signed (BitVec.ofInt 64 (Numeral.decimal text))
  | (.unknown, _) => Value.unsigned 0
  | (radix, digits) => Value.unsigned (Numeral.based radix.base digits)

end HdlExpr.Literal
