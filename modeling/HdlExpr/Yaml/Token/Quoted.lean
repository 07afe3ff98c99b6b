import HdlExpr.Yaml.Token

/-!
# Quoted scalars

A line break inside quotes is written for a space, and further breaks stand for themselves.  In
single quotes a quote is written twice; in double quotes there are escapes.
-/

namespace HdlExpr.Yaml

/-- A quoted scalar of which a part has been read.  The characters read and the text they stand for
are kept last first.  `fresh` tells that only blanks were read since a line break, and `skipped`
counts the characters that are lost after the closing quote. -/
structure Quoted where
  place : Place
  source : List Char
  text : List Char := []
  fresh : Bool := false
  skipped : Nat := 0

namespace Quoted

/-- Reads characters of one line that stand for some text. -/
def push (q : Quoted) (characters : List Char) (text : List Char) : Quoted :=
  { q with
    place := { q.place with column := q.place.column + characters.length }
    source := characters.reverse ++ q.source
    text := text.reverse ++ q.text
    fresh := false }

/-- Reads a character that stands for nothing. -/
def skip (q : Quoted) (c : Char) : Quoted := { q.push [c] [] with fresh := q.fresh }

def nextLine (q : Quoted) (characters : List Char) : Quoted :=
  { q.push characters [] with place := ⟨q.place.line + 1, 1⟩, fresh := true }

/-- Reads a line break, which takes the spaces before it away. -/
def lineBreak (q : Quoted) (c : Char) : Quoted :=
  { q.nextLine [c] with
    text := (if q.fresh then '\n' else ' ') :: q.text.dropWhile (· == ' ') }

/-- Reads white space that may be followed by more of it.  A document cannot end inside quotes, and
tabs may not stand in for indentation; `least` is the column of the collection around. -/
def space? (least : Nat) (q : Quoted) (c : Char) (rest : List Char) : Option Quoted :=
  if isBreak c then if atMarker rest then none else some (q.lineBreak c)
  else if c == '\t' && q.place.column ≤ least then none
  else some (q.skip c)

/-- Whether a character is white space that does not stand for itself. -/
def isSpace (q : Quoted) (c : Char) : Bool := isBreak c || (q.fresh && isBlank c)

/-! ## Single quotes -/

/-- Reads up to the closing quote. -/
def single (least : Nat) : List Char → Quoted → Option (Quoted × List Char)
  | [], _ => none
  | '\'' :: '\'' :: rest, q =>
    single least rest { q.push ['\'', '\''] ['\''] with fresh := q.fresh }
  | c :: rest, q =>
    if q.isSpace c then (q.space? least c rest).bind (single least rest)
    else if c == '\'' then some (q.skip c, rest)
    else single least rest (q.push [c] [c])

/-! ## Escapes -/

/-- The value of a hexadecimal digit; other characters count by their distance from zero. -/
def hexDigit (c : Char) : Int :=
  if 'A' ≤ c && c ≤ 'F' then c.toNat - 'A'.toNat + 10
  else if 'a' ≤ c && c ≤ 'f' then c.toNat - 'a'.toNat + 10
  else (c.toNat : Int) - '0'.toNat

def hexNumber (digits : List Char) : Int := digits.foldl (fun n c => n * 16 + hexDigit c) 0

/-- The character with a number of 32 bits; numbers without one have the replacement character. -/
def character (code : Int) : Char :=
  let n := code.bmod 4294967296
  if 0 ≤ n ∧ n.toNat.isValidChar then Char.ofNat n.toNat else '�'

/-- The character that a letter stands for after a backslash. -/
def letterEscape? : Char → Option Char
  | '0' => some '\x00'
  | 'a' => some '\x07'
  | 'b' => some '\x08'
  | 't' | '\t' => some '\t'
  | 'n' => some '\n'
  | 'v' => some '\x0b'
  | 'f' => some '\x0c'
  | 'r' => some '\r'
  | 'e' => some '\x1b'
  | ' ' => some ' '
  | '"' => some '"'
  | '/' => some '/'
  | '\\' => some '\\'
  | 'N' => some '\u0085'
  | '_' => some '\u00a0'
  | 'L' => some '\u2028'
  | 'P' => some '\u2029'
  | _ => none

/-- An escape by number: its length without the backslash, and its character.  Where digits are
missing the letter stands for itself. -/
def numberEscape (letter : Char) (count : Nat) (rest : List Char) : Nat × Char :=
  if rest.length < count then (1, letter) else (count + 1, character (hexNumber (rest.take count)))

/-- An escape of four digits, or of two such numbers that stand for one character. -/
def pairEscape? (rest : List Char) : Option (Nat × Char) :=
  let high := hexNumber (rest.take 4)
  if rest.length < 4 ∨ high < 0xd800 ∨ 0xdbff < high then some (numberEscape 'u' 4 rest)
  else
    match rest.drop 4 with
    | '\\' :: 'u' :: more =>
      let low := hexNumber (more.take 4)
      if more.length < 4 ∨ low < 0xdc00 ∨ 0xdfff < low then none
      else some (11, character ((high - 0xd800) * 0x400 + (low - 0xdc00) + 0x10000))
    | _ => none

/-- The length of an escape without its backslash, and its character. -/
def escape? : List Char → Option (Nat × Char)
  | [] => none
  | 'x' :: rest => some (numberEscape 'x' 2 rest)
  | 'u' :: rest => pairEscape? rest
  | 'U' :: rest => some (numberEscape 'U' 8 rest)
  | c :: _ => (letterEscape? c).map fun e => (1, e)

/-! ## Double quotes -/

/-- Reads a tab and gives the number of blanks to pass.  Before the end of a line it is lost with
the blanks after it; elsewhere it stands for itself, and unless the scalar ends right after it a
character is lost behind the scalar. -/
def tab (q : Quoted) (rest : List Char) : Nat × Quoted :=
  let line := rest.takeWhile (!isBreak ·)
  if line.all isBlank then (line.length, q.push ('\t' :: line) [])
  else
    let next := q.push ['\t'] ['\t']
    if rest.head? = some '"' then (0, next)
    else
      (0, { next with
        place := { next.place with column := next.place.column + 1 }
        skipped := next.skipped + 1 })

/-- Reads an escape and gives the number of characters to pass.  A backslash before a line break
joins the lines. -/
def escaped? (q : Quoted) : List Char → Option (Nat × Quoted)
  | '\r' :: '\n' :: _ => some (2, q.nextLine ['\\', '\r', '\n'])
  | '\n' :: _ => some (1, q.nextLine ['\\', '\n'])
  | '\r' :: _ => some (1, q.nextLine ['\\', '\r'])
  | rest => (escape? rest).map fun (length, c) => (length, q.push ('\\' :: rest.take length) [c])

/-- Reads up to the closing quote, after a number of characters to pass. -/
def double (least : Nat) : Nat → List Char → Quoted → Option (Quoted × List Char)
  | _, [], _ => none
  | passed + 1, _ :: rest, q => double least passed rest q
  | 0, c :: rest, q =>
    if q.isSpace c then (q.space? least c rest).bind (double least 0 rest)
    else if c == '\\' then
      match q.escaped? rest with
      | some (passed, q) => double least passed rest q
      | none => none
    else if c == '\t' then
      let (passed, q) := q.tab rest
      double least passed rest q
    else if c == '"' then some (q.skip c, rest)
    else double least 0 rest (q.push [c] [c])

/-- Reads a quoted scalar from its opening quote and gives what is left; `source` is what stands
before it. -/
def read? (least : Nat) (place : Place) (source : List Char) :
    List Char → Option (Quoted × List Char)
  | [] => none
  | quote :: rest =>
    let start : Quoted :=
      { place := { place with column := place.column + 1 }, source := quote :: source }
    if quote == '"' then double least 0 rest start else single least rest start

end Quoted

end HdlExpr.Yaml
