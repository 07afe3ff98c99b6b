import HdlExpr.Plain
import HdlExpr.Numeral
import HdlExpr.Text.Alphanumeric
import HdlExpr.Text.Printable

/-!
# Tokens of definition formulas

The text of a formula is a list of numbers, quoted texts, names and symbols.  White space and
comments stand between them.
-/

namespace HdlExpr.Definition

inductive Token where
  | number (spelling : String)
  | text (value : String)
  | name (text : String)
  | symbol (text : String)
  deriving Inhabited

namespace Token

/-- What names are made of: letters, digits, `_` and `$`. -/
def isNameChar (c : Char) : Bool := c == '_' || c == '$' || Text.isAlphanumeric c

/-- The words that are operators and never names. -/
def reserved : List String :=
  ["not", "in", "or", "and", "matches", "contains", "startsWith", "endsWith", "let", "if", "else"]

/-! ## Numbers -/

/-- Whether a character continues a number of the given base; `_` may stand between digits. -/
def isNumberChar (base : Nat) (c : Char) : Bool := c == '_' || Numeral.digitValue c < base

/-- Takes a mark such as `0x` from the front: the base, the mark, and the rest. -/
def splitBase : List Char → Nat × List Char × List Char
  | '0' :: c :: rest =>
    if c == 'x' || c == 'X' then (16, ['0', c], rest)
    else if c == 'o' || c == 'O' then (8, ['0', c], rest)
    else if c == 'b' || c == 'B' then (2, ['0', c], rest)
    else (10, [], '0' :: c :: rest)
  | cs => (10, [], cs)

def splitExponent (base : Nat) : List Char → List Char × List Char
  | e :: rest =>
    if e == 'e' || e == 'E' then
      let sign := rest.take (Numeral.signLength rest)
      let rest := rest.drop sign.length
      (e :: sign ++ rest.takeWhile (isNumberChar base), rest.dropWhile (isNumberChar base))
    else ([], e :: rest)
  | [] => ([], [])

/-- Takes the spelling of a number from the front.  Two points after a number are a symbol of
their own, and a name may not follow directly. -/
def splitNumber (cs : List Char) : Option (List Char × List Char) :=
  let (base, mark, rest) := splitBase cs
  let whole := rest.takeWhile (isNumberChar base)
  match rest.dropWhile (isNumberChar base) with
  | '.' :: '.' :: rest => some (mark ++ whole, '.' :: '.' :: rest)
  | rest =>
    let (fraction, rest) :=
      match rest with
      | '.' :: rest =>
        ('.' :: rest.takeWhile (isNumberChar base), rest.dropWhile (isNumberChar base))
      | rest => ([], rest)
    let (exponent, rest) := splitExponent base rest
    if rest.head?.any isNameChar then none
    else some (mark ++ whole ++ fraction ++ exponent, rest)

/-- A literal number: whole, or real. -/
inductive Literal where
  | int (i : Int)
  | real (x : Float)

/-- The whole number that digits write, if there are any and it is below `2 ^ 63`. -/
def wholeNumber (base : Nat) (digits : List Char) : Option Literal :=
  let n := digits.foldl (fun n c => n * base + Numeral.digitValue c) 0
  if digits ≠ [] ∧ digits.all (fun c => decide (Numeral.digitValue c < base)) ∧ n < halfCount then
    some (.int n)
  else none

/-- The finite real that a text writes. -/
def realNumber (cs : List Char) : Option Literal :=
  let x := Numeral.readReal cs
  if cs ≠ [] ∧ Numeral.realPrefix cs = cs.length ∧ x.isFinite then some (.real x) else none

/-- The number with a given spelling: real when a decimal spelling has a point or an exponent. -/
def readNumber (spelling : String) : Option Literal :=
  let cs := spelling.toList.filter (· != '_')
  match splitBase cs with
  | (16, _, digits) => wholeNumber 16 digits
  | (base, _, digits) =>
    if cs.any fun c => c == '.' || c == 'e' || c == 'E' then realNumber cs
    else wholeNumber base digits

/-! ## Quoted texts -/

/-- Takes the text up to a quote from the front.  A backslash guards the character after it, and
the text may not go over the end of a line. -/
def splitQuoted (quote : Char) : List Char → Option (List Char × List Char)
  | [] => none
  | '\\' :: c :: rest => (splitQuoted quote rest).map fun (body, rest) => ('\\' :: c :: body, rest)
  | c :: rest =>
    if c == quote then some ([], rest)
    else if c == '\n' then none
    else (splitQuoted quote rest).map fun (body, rest) => (c :: body, rest)

/-- Takes the text up to a single backquote from the front; two stand for one, and all else stands
for itself. -/
def splitRaw : List Char → Option (List Char × List Char)
  | [] => none
  | '\x60' :: '\x60' :: rest => (splitRaw rest).map fun (body, rest) => ('\x60' :: body, rest)
  | c :: rest =>
    if c == '\x60' then some ([], rest)
    else (splitRaw rest).map fun (body, rest) => (c :: body, rest)

/-- The character with a number; one outside of Unicode's characters is a replacement character,
and there is none beyond its range. -/
def character? (n : Nat) : Option Char :=
  if h : n.isValidChar then some ⟨n.toUInt32, by
    have : n < 4294967296 := by rcases h with h | ⟨_, h⟩ <;> omega
    simpa [UInt32.isValidChar, Nat.mod_eq_of_lt this] using h⟩
  else if n < 0x110000 then some '�'
  else none

def numbered? (base : Nat) (digits : List Char) : Option Char :=
  if digits.all fun c => decide (Numeral.digitValue c < base) then
    character? (digits.foldl (fun n c => n * base + Numeral.digitValue c) 0)
  else none

/-- The character that a letter stands for after a backslash. -/
def letterEscape? (quote : Char) : Char → Option Char
  | 'a' => some '\x07'
  | 'b' => some '\x08'
  | 'f' => some '\x0c'
  | 'n' => some '\n'
  | 'r' => some '\r'
  | 't' => some '\t'
  | 'v' => some '\x0b'
  | '\\' => some '\\'
  | c => if c == quote then some quote else none

def isHex (c : Char) : Bool := Numeral.digitValue c < 16

/-- Takes one to six hexadecimal digits and a brace from the front of a text. -/
def braced? (cs : List Char) : Option (Char × List Char) :=
  let digits := cs.takeWhile isHex
  match cs.drop digits.length with
  | '\x7d' :: rest =>
    if digits.isEmpty || 6 < digits.length then none
    else (numbered? 16 digits).map fun c => (c, rest)
  | _ => none

/-- Takes an escape, without its backslash, from the front. -/
def escape? (quote : Char) : List Char → Option (Char × List Char)
  | 'x' :: a :: b :: rest => (numbered? 16 [a, b]).map (·, rest)
  | 'u' :: '\x7b' :: rest => braced? rest
  | 'u' :: a :: b :: c :: d :: rest => (numbered? 16 [a, b, c, d]).map (·, rest)
  | 'U' :: a :: b :: c :: d :: e :: f :: g :: h :: rest =>
    (numbered? 16 [a, b, c, d, e, f, g, h]).map (·, rest)
  | c :: rest =>
    if Numeral.isDigit c then
      match rest with
      | d :: e :: rest => if c ≤ '3' then (numbered? 8 [c, d, e]).map (·, rest) else none
      | _ => none
    else (letterEscape? quote c).map (·, rest)
  | [] => none

/-- The text that stands between quotes, with its escapes replaced.  A carriage return is written
as a line feed. -/
def unescape (quote : Char) : Nat → List Char → Option (List Char)
  | _, [] => some []
  | 0, _ => none
  | fuel + 1, '\\' :: rest => do
    let (c, rest) ← escape? quote rest
    return c :: (← unescape quote fuel rest)
  | fuel + 1, c :: rest => do
    return (if c == '\r' then '\n' else c) :: (← unescape quote fuel rest)

/-! ## Lists of tokens -/

/-- What follows a comment that ends with `*/`. -/
def skipBlock : List Char → Option (List Char)
  | [] => none
  | '*' :: '/' :: rest => some rest
  | _ :: rest => skipBlock rest

/-- A symbol of one character, or of two when the next character is one of `second`. -/
def symbolWith (second : List Char) (c : Char) (rest : List Char) : Token × List Char :=
  match rest with
  | d :: tail => if second.contains d then (.symbol (String.ofList [c, d]), tail)
    else (.symbol (String.singleton c), rest)
  | [] => (.symbol (String.singleton c), [])

def numberToken (cs : List Char) : Option (Token × List Char) := do
  let (spelling, rest) ← splitNumber cs
  some (.number (String.ofList spelling), rest)

/-- Takes one token from the front of a text that begins with `c`, or nothing where white space or
a comment stands. -/
def first (c : Char) (rest : List Char) : Option (Option Token × List Char) :=
  let one (t : Token × List Char) : Option (Option Token × List Char) := some (some t.1, t.2)
  if Text.isBlank c then some (none, rest)
  else if c == '\'' || c == '"' then do
    let (body, rest) ← splitQuoted c rest
    let body ← unescape c body.length body
    some (some (.text (String.ofList body)), rest)
  else if c == '\x60' then (splitRaw rest).map fun (body, rest) =>
    (some (.text (String.ofList body)), rest)
  else if Numeral.isDigit c then (numberToken (c :: rest)).bind one
  else if c == '/' then
    match rest with
    | '/' :: rest => some (none, rest.dropWhile (· != '\n'))
    | '*' :: rest => (skipBlock rest).map fun rest => (none, rest)
    | _ => one (.symbol "/", rest)
  else if c == '.' then
    if rest.head?.any Numeral.isDigit then (numberToken (c :: rest)).bind one
    else one (symbolWith ['.'] c rest)
  else if c == '?' then one (symbolWith ['.', '?'] c rest)
  else if c == '|' || c == ':' then one (symbolWith [c] c rest)
  else if ['&', '!', '=', '*', '<', '>'].contains c then one (symbolWith ['&', '=', '*'] c rest)
  else if "()[]\x7b\x7d,;%+-^".toList.contains c then one (.symbol (String.singleton c), rest)
  else if isNameChar c then
    let word := String.ofList (c :: rest.takeWhile isNameChar)
    one (if reserved.contains word then .symbol word else .name word, rest.dropWhile isNameChar)
  else none

/-- The tokens of a text, each step of which takes at least one character. -/
def scan : Nat → List Char → Option (List Token)
  | _, [] => some []
  | 0, _ => none
  | fuel + 1, c :: rest => do
    let (token, rest) ← first c rest
    let tokens ← scan fuel rest
    some (token.toList ++ tokens)

/-- The tokens of a text, or nothing when a part of it is no token. -/
def ofText (text : String) : Option (List Token) := scan text.length text.toList

end Token

end HdlExpr.Definition
