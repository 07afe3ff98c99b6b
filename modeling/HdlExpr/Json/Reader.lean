import HdlExpr.Numeral
import HdlExpr.Plain

/-!
# JSON values

Reads the first value of a text.  All numbers are real.
-/

namespace HdlExpr.Json

def skipBlanks (cs : List Char) : List Char :=
  cs.dropWhile fun c => c == ' ' || c == '\t' || c == '\n' || c == '\r'

/-- The number that four hexadecimal digits write, and what follows them. -/
def hex4? : List Char → Option (Nat × List Char)
  | a :: b :: c :: d :: rest =>
    let digits := [a, b, c, d].map Numeral.digitValue
    if digits.all (· < 16) then some (digits.foldl (fun n d => 16 * n + d) 0, rest) else none
  | _ => none

/-- The character of a code, or of two codes that are halves of one. -/
def unicode? (cs : List Char) : Option (Char × List Char) :=
  match hex4? cs with
  | none => none
  | some (n, rest) =>
    let alone := (if n.isValidChar then Char.ofNat n else '�', rest)
    match rest with
    | '\\' :: 'u' :: more =>
      match hex4? more with
      | some (low, after) =>
        if 0xd800 ≤ n && n < 0xdc00 && 0xdc00 ≤ low && low < 0xe000 then
          some (Char.ofNat (0x10000 + (n - 0xd800) * 0x400 + (low - 0xdc00)), after)
        else some alone
      | none => some alone
    | _ => some alone

/-- The character that a letter stands for after a backslash. -/
def letterEscape? : Char → Option Char
  | '"' => some '"'
  | '\\' => some '\\'
  | '/' => some '/'
  | 'b' => some '\x08'
  | 'f' => some '\x0c'
  | 'n' => some '\n'
  | 'r' => some '\r'
  | 't' => some '\t'
  | _ => none

/-- Takes the rest of a string after its first quote. -/
def string? : Nat → List Char → Option (List Char × List Char)
  | 0, _ => none
  | fuel + 1, cs =>
    match cs with
    | [] => none
    | '"' :: rest => some ([], rest)
    | '\\' :: 'u' :: rest => do
      let (c, rest) ← unicode? rest
      let (s, rest) ← string? fuel rest
      some (c :: s, rest)
    | '\\' :: c :: rest => do
      let c ← letterEscape? c
      let (s, rest) ← string? fuel rest
      some (c :: s, rest)
    | c :: rest =>
      if c < ' ' then none else (string? fuel rest).map fun (s, rest) => (c :: s, rest)

def isNumber (cs : List Char) : Bool :=
  let digits := match cs with
    | '-' :: rest => rest
    | cs => cs
  let whole := digits.takeWhile Numeral.isDigit
  let rest := digits.drop whole.length
  let wholeOk := whole == ['0'] || (!whole.isEmpty && whole.head? != some '0')
  let fractionOk := match rest with
    | '.' :: rest => rest.head?.any Numeral.isDigit
    | _ => true
  wholeOk && fractionOk && Numeral.realPrefix cs == cs.length

def number? (cs : List Char) : Option (Plain × List Char) :=
  let text := cs.takeWhile fun c => Numeral.isDigit c || ['+', '-', '.', 'e', 'E'].contains c
  let x := Numeral.readReal text
  if isNumber text && x.isFinite then some (.real x, cs.drop text.length) else none

mutual

def value? : Nat → List Char → Option (Plain × List Char)
  | 0, _ => none
  | fuel + 1, cs =>
    match skipBlanks cs with
    | '\x7b' :: rest =>
      match skipBlanks rest with
      | '\x7d' :: rest => some (.map [], rest)
      | rest => members? fuel [] rest
    | '[' :: rest =>
      match skipBlanks rest with
      | ']' :: rest => some (.list [], rest)
      | rest => items? fuel [] rest
    | '"' :: rest => (string? rest.length rest).map fun (s, rest) => (.text (String.ofList s), rest)
    | 't' :: 'r' :: 'u' :: 'e' :: rest => some (.bool true, rest)
    | 'f' :: 'a' :: 'l' :: 's' :: 'e' :: rest => some (.bool false, rest)
    | 'n' :: 'u' :: 'l' :: 'l' :: rest => some (.null, rest)
    | cs => number? cs

/-- Takes the rest of an array after those in `done`. -/
def items? : Nat → List Plain → List Char → Option (Plain × List Char)
  | 0, _, _ => none
  | fuel + 1, done, cs => do
    let (v, rest) ← value? fuel cs
    match skipBlanks rest with
    | ',' :: rest => items? fuel (v :: done) rest
    | ']' :: rest => some (.list (v :: done).reverse, rest)
    | _ => none

/-- Takes the rest of an object after those in `done`; of two members with one name the later
counts. -/
def members? : Nat → List (String × Plain) → List Char → Option (Plain × List Char)
  | 0, _, _ => none
  | fuel + 1, done, cs =>
    match skipBlanks cs with
    | '"' :: rest => do
      let (name, rest) ← string? rest.length rest
      match skipBlanks rest with
      | ':' :: rest =>
        let (v, rest) ← value? fuel rest
        let done := (String.ofList name, v) :: done
        match skipBlanks rest with
        | ',' :: rest => members? fuel done rest
        | '\x7d' :: rest => some (.map done, rest)
        | _ => none
      | _ => none
    | _ => none

end

def read (text : String) : Option Plain :=
  (value? (2 * text.length + 2) text.toList).map (·.1)

end HdlExpr.Json
