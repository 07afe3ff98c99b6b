import HdlExpr.Yaml.Token

/-!
# Text blocks

The text of a literal block keeps its line breaks; that of a folded one joins lines that have the
same indentation.  How much of the indentation belongs to the text is told by the header, or by the
first line that is not blank.
-/

namespace HdlExpr.Yaml

/-! ## Collected text -/

/-- Text that is being collected, last character first.  Blanks and breaks at its end are kept
apart, because they count only if something follows them. -/
structure Buffer where
  text : List Char := []
  gap : List Char := []

namespace Buffer

def length (b : Buffer) : Nat := b.text.length + b.gap.length

def addKept (b : Buffer) (c : Char) : Buffer := { text := c :: (b.gap ++ b.text) }

/-- Adds a blank, which does not begin a text. -/
def addGap (b : Buffer) (c : Char) : Buffer :=
  if b.length = 0 then b else { b with gap := c :: b.gap }

def add (b : Buffer) (c : Char) : Buffer := if isBlank c then b.addGap c else b.addKept c

def addTight (b : Buffer) (c : Char) : Buffer := if c == ' ' then b.addGap c else b.addKept c

/-- Adds the break of a line without text, in place of the space that the break before it left. -/
def addBreak (b : Buffer) : Buffer :=
  match b.gap with
  | ' ' :: gap | gap => { b with gap := '\n' :: gap }

end Buffer

/-! ## Headers -/

/-- How the text of a block ends: with one line break, with none, or with all. -/
inductive Chomp where
  | clip
  | strip
  | keep
  deriving DecidableEq, Repr, Inhabited

namespace Chomp

/-- Takes a character from the front, if it is there. -/
def dropMark (c : Char) (cs : List Char) : List Char := if cs.head? = some c then cs.drop 1 else cs

/-- What a header says after its mark: how the text ends, and how far it is indented. -/
def ofHeader? (options : List Char) : Option (Chomp × Int) :=
  let ends (c : Char) : Bool := options.head? = some c || options.getLast? = some c
  let chomp := if ends '-' then .strip else if ends '+' then .keep else .clip
  let digits := dropMark '+' (dropMark '-' options)
  let digits := (dropMark '+' (dropMark '-' digits.reverse)).reverse
  match digits with
  | [] => some (chomp, 0)
  | ['0'] => none
  | digits =>
    let (down, magnitude) := Numeral.splitSign digits
    match digitsNumber? 10 magnitude with
    | some n =>
      let indent : Int := if down then -n else n
      if indent ≤ 9 then some (chomp, indent) else none
    | none => none
/-- The text of a block without the breaks that it does not end with.  A break alone is no text. -/
def finish (chomp : Chomp) (text : List Char) : List Char :=
  let body := text.dropWhile (· == '\n')
  let breaks := text.length - body.length
  match chomp with
  | .strip => body.dropWhile (· == ' ')
  | .clip => if body.isEmpty then [] else if breaks = 0 then body else '\n' :: body
  | .keep => if text.isEmpty then ['\n'] else text

end Chomp

/-! ## Blocks -/

/-- A block whose text is being read.  Columns are zero while they are not known: `first` is the
least column of the text, `current` and `previous` are those in which this line and the one before
begin, `last` is that of the last line that is not blank, and `blank` is the greatest of the blank
lines before the text.  `broken` tells that a line has ended and nothing has been read since. -/
structure Block where
  folded : Bool
  chomp : Chomp
  indented : Bool := false
  first : Nat := 0
  previous : Nat := 0
  current : Nat := 0
  last : Nat := 0
  blank : Nat := 0
  broken : Bool := false

namespace Block

/-- The block that a header begins, inside a collection in some column. -/
def ofHeader? (folded : Bool) (column : Nat) (options : List Char) : Option Block :=
  (Chomp.ofHeader? options).map fun (chomp, indent) =>
    { folded, chomp
      indented := indent ≠ 0
      first := if 0 < indent then column + indent.toNat else 0 }

/-- A plain scalar that goes on with a dash in some column. -/
def ofDash (column : Nat) : Block :=
  { folded := true, chomp := .strip, first := column, current := column }

/-- Notes the column in which a line begins. -/
def enter (b : Block) (column : Nat) : Block :=
  { b with
    first := if b.first = 0 then column else b.first
    current := if b.current = 0 then column else b.current }

/-- Whether a line begins before the column that the header asks for. -/
def isShort (b : Block) : Bool := b.indented && b.current < b.first

/-- Notes the end of a line whose break is in some column. -/
def leave (b : Block) (column : Nat) : Block :=
  { b with
    blank := if b.first = 0 then column - 1 else b.blank
    previous := b.current
    last := if b.current = 0 then b.last else b.current
    broken := true
    current := 0 }

def isMargin (b : Block) (column : Nat) : Bool :=
  if b.first = 0 then column = 1 else column < b.first

/-- Reads a space at the start of a line, which is text if it is not indentation. -/
def space (b : Block) (column : Nat) (text : Buffer) : Block × Buffer :=
  if b.first = 0 || column < b.first then (b, text)
  else ({ b with broken := b.broken && !b.folded }, text.addKept ' ')

/-- Joins a line to those before it: in folded text a break between lines that begin in the same
column is a space, and one of several breaks between such lines is dropped. -/
def join (b : Block) (column : Nat) (text : Buffer) : Block × Buffer :=
  if b.folded && b.broken then
    let joined :=
      if b.current = b.previous then
        match text.text with
        | '\n' :: rest => { text with text := ' ' :: rest }
        | _ => text
      else if b.previous = 0 && b.last = column then
        match text.text with
        | '\n' :: '\n' :: rest => { text with text := '\n' :: rest }
        | _ => text
      else text
    ({ b with broken := false }, joined)
  else (b, text)

end Block

end HdlExpr.Yaml
