import HdlExpr.Definition.Token

/-!
# Definition formulas

A formula is built from literals, names, lists and maps with arithmetic, comparison, logic and
choice.  Operators bind by precedence; comparisons may be chained, and then all neighbours are
compared.
-/

namespace HdlExpr.Definition

inductive UnaryOp where
  | plus
  | minus
  | not
  deriving DecidableEq

inductive BinaryOp where
  | or
  | and
  | equal
  | unequal
  | less
  | greater
  | greaterEqual
  | lessEqual
  | range
  | add
  | subtract
  | multiply
  | divide
  | modulo
  | power
  deriving DecidableEq

/-- A formula.  A map has as many keys as values, and a chain compares neighbours by as many
operators as there are operands after the first. -/
inductive Formula where
  | int (i : Int)
  | real (x : Float)
  | text (s : String)
  | bool (b : Bool)
  | null
  | name (s : String)
  | list (items : List Formula)
  | map (keys values : List Formula)
  | unary (op : UnaryOp) (operand : Formula)
  | binary (op : BinaryOp) (left right : Formula)
  | chain (first : Formula) (ops : List BinaryOp) (others : List Formula)
  | choice (condition yes no : Formula)
  | fallback (condition no : Formula)
  /-- Formulas of which the last gives the value. -/
  | sequence (steps : List Formula)
  deriving Inhabited

/-- The name of all bindings together. -/
def everything : String := "$env"

namespace UnaryOp

def ofSymbol? : String → Option UnaryOp
  | "not" | "!" => some .not
  | "-" => some .minus
  | "+" => some .plus
  | _ => none

/-- How tightly an operator holds its operand. -/
def precedence : UnaryOp → Nat
  | .not => 50
  | .plus | .minus => 90

end UnaryOp

namespace BinaryOp

def ofSymbol? : String → Option BinaryOp
  | "or" | "||" => some .or
  | "and" | "&&" => some .and
  | "==" => some .equal
  | "!=" => some .unequal
  | "<" => some .less
  | ">" => some .greater
  | ">=" => some .greaterEqual
  | "<=" => some .lessEqual
  | ".." => some .range
  | "+" => some .add
  | "-" => some .subtract
  | "*" => some .multiply
  | "/" => some .divide
  | "%" => some .modulo
  | "**" | "^" => some .power
  | _ => none

/-- How tightly an operator holds its operands. -/
def precedence : BinaryOp → Nat
  | .or => 10
  | .and => 15
  | .equal | .unequal | .less | .greater | .greaterEqual | .lessEqual => 20
  | .range => 25
  | .add | .subtract => 30
  | .multiply | .divide | .modulo => 60
  | .power => 100

/-- The least precedence inside the right operand: powers group to the right, all else to the
left. -/
def rightPrecedence (op : BinaryOp) : Nat :=
  match op with
  | .power => op.precedence
  | _ => op.precedence + 1

def isOrder : BinaryOp → Bool
  | .less | .greater | .greaterEqual | .lessEqual => true
  | _ => false

end BinaryOp

namespace Formula

/-- The binary operator at the front of a list of tokens, if it binds at least so tightly. -/
def operator? (least : Nat) : List Token → Option (BinaryOp × List Token)
  | .symbol s :: rest =>
    match BinaryOp.ofSymbol? s with
    | some op => if least ≤ op.precedence then some (op, rest) else none
    | none => none
  | _ => none

def ofName : String → Formula
  | "true" => .bool true
  | "false" => .bool false
  | "nil" => .null
  | s => .name s

def ofNumber? (spelling : String) : Option Formula :=
  match Token.readNumber spelling with
  | some (.int i) => some (.int i)
  | some (.real x) => some (.real x)
  | none => none

/-- Adds a comparison to a chain, of which `before` are done. -/
def compared (before : Option Formula) (op : BinaryOp) (left right : Formula) : Formula :=
  match before with
  | some (.chain first ops others) => .chain first (ops ++ [op]) (others ++ [right])
  | _ => .chain left [op] [right]

mutual

/-- Takes a formula from the front whose outer operators bind at least as tightly as `least`. -/
def expression : Nat → Nat → List Token → Option (Formula × List Token)
  | 0, _, _ => none
  | fuel + 1, least, tokens => do
    let (left, tokens) ← operand fuel tokens
    let (left, tokens) ← operations fuel least left tokens
    if least = 0 then choices fuel left tokens else some (left, tokens)

/-- Takes a literal, a name, a bracketed formula or one with a unary operator from the front. -/
def operand : Nat → List Token → Option (Formula × List Token)
  | 0, _ => none
  | fuel + 1, tokens =>
    match tokens with
    | .number n :: rest => (ofNumber? n).map (·, rest)
    | .text s :: rest => some (.text s, rest)
    | .name s :: rest => some (ofName s, rest)
    | .symbol "(" :: rest => do
      let (inner, rest) ← steps fuel [] rest
      match rest with
      | .symbol ")" :: rest => some (inner, rest)
      | _ => none
    | .symbol "[" :: rest => items fuel [] rest
    | .symbol "\x7b" :: rest => entries fuel [] [] rest
    | .symbol s :: rest => do
      let op ← UnaryOp.ofSymbol? s
      let (inner, rest) ← expression fuel op.precedence rest
      some (.unary op inner, rest)
    | [] => none

/-- Goes on with the binary operators after a left operand. -/
def operations : Nat → Nat → Formula → List Token → Option (Formula × List Token)
  | 0, _, _, _ => none
  | fuel + 1, least, left, tokens =>
    match operator? least tokens with
    | none => some (left, tokens)
    | some (op, rest) =>
      if op.isOrder then do
        let (whole, rest) ← comparisons fuel none op left rest
        operations fuel least whole rest
      else do
        let (right, rest) ← expression fuel op.rightPrecedence rest
        operations fuel least (.binary op left right) rest

/-- Goes on with a chain of comparisons, of which `before` are done. -/
def comparisons : Nat → Option Formula → BinaryOp → Formula → List Token →
    Option (Formula × List Token)
  | 0, _, _, _, _ => none
  | fuel + 1, before, op, left, tokens => do
    let (right, rest) ← expression fuel op.rightPrecedence tokens
    let whole := compared before op left right
    match operator? 0 rest with
    | some (next, after) =>
      if next.isOrder then comparisons fuel (some whole) next right after else some (whole, rest)
    | none => some (whole, rest)

/-- Goes on with choices: `c ? a : b`, or `c ?: b` that gives `c` itself. -/
def choices : Nat → Formula → List Token → Option (Formula × List Token)
  | 0, _, _ => none
  | fuel + 1, condition, tokens =>
    match tokens with
    | .symbol "?" :: .symbol ":" :: rest => do
      let (no, rest) ← expression fuel 0 rest
      choices fuel (.fallback condition no) rest
    | .symbol "?" :: rest => do
      let (yes, rest) ← expression fuel 0 rest
      match rest with
      | .symbol ":" :: rest =>
        let (no, rest) ← expression fuel 0 rest
        choices fuel (.choice condition yes no) rest
      | _ => none
    | _ => some (condition, tokens)

/-- Takes formulas with semicolons between them from the front; `done` are those before, in reverse.
A semicolon may stand at the end of the text. -/
def steps : Nat → List Formula → List Token → Option (Formula × List Token)
  | 0, _, _ => none
  | fuel + 1, done, tokens => do
    let (f, rest) ← expression fuel 0 tokens
    let whole := if done.isEmpty then f else .sequence (f :: done).reverse
    match rest with
    | [.symbol ";"] => some (whole, [])
    | .symbol ";" :: rest => steps fuel (f :: done) rest
    | rest => some (whole, rest)

/-- Takes the rest of a list; a comma may stand before the bracket. -/
def items : Nat → List Formula → List Token → Option (Formula × List Token)
  | 0, _, _ => none
  | fuel + 1, done, tokens =>
    match tokens with
    | .symbol "]" :: rest => some (.list done.reverse, rest)
    | tokens => do
      let (item, rest) ← expression fuel 0 tokens
      match rest with
      | .symbol "," :: rest => items fuel (item :: done) rest
      | .symbol "]" :: rest => some (.list (item :: done).reverse, rest)
      | _ => none

/-- Takes the rest of a map; a comma may stand before the bracket. -/
def entries : Nat → List Formula → List Formula → List Token → Option (Formula × List Token)
  | 0, _, _, _ => none
  | fuel + 1, keys, values, tokens =>
    match tokens with
    | .symbol "\x7d" :: rest => some (.map keys.reverse values.reverse, rest)
    | tokens => do
      let (key, rest) ← entryKey fuel tokens
      match rest with
      | .symbol ":" :: rest =>
        let (value, rest) ← expression fuel 0 rest
        match rest with
        | .symbol "," :: rest => entries fuel (key :: keys) (value :: values) rest
        | .symbol "\x7d" :: rest =>
          some (.map (key :: keys).reverse (value :: values).reverse, rest)
        | _ => none
      | _ => none

/-- Takes the key of a map entry: a word of any kind, which stands for its text, or a formula that
begins with a bracket. -/
def entryKey : Nat → List Token → Option (Formula × List Token)
  | 0, _ => none
  | fuel + 1, tokens =>
    match tokens with
    | .text s :: rest | .name s :: rest | .number s :: rest => some (.text s, rest)
    | .symbol "(" :: _ => expression fuel 0 tokens
    | _ => none

end

/-! ## Size -/

mutual

/-- How many parts a formula has; what stands in it twice but is written once counts once. -/
def size : Formula → Nat
  | .int _ | .real _ | .text _ | .bool _ | .null | .name _ => 1
  | .list items => 1 + sizes items
  | .map keys values => 1 + sizes keys + sizes values + keys.length
  | .unary _ f => 1 + size f
  | .binary _ a b => 1 + size a + size b
  | .chain first ops others => size first + sizes others + (2 * ops.length - 1)
  | .choice c a b => 1 + size c + size a + size b
  | .fallback c b => 1 + size c + size b
  | .sequence fs => 1 + sizes fs

def sizes : List Formula → Nat
  | [] => 0
  | f :: fs => size f + sizes fs

end

/-- How many parts a formula may have. -/
def largest : Nat := 10000

/-- The formula that tokens spell, unless it is too large. -/
def ofTokens (tokens : List Token) : Option Formula :=
  match steps (4 * tokens.length + 4) [] tokens with
  | some (f, []) => if f.size ≤ largest then some f else none
  | _ => none

def ofText (text : String) : Option Formula := (Token.ofText text).bind ofTokens

end Formula

end HdlExpr.Definition
