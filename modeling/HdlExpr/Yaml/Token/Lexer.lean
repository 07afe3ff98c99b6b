import HdlExpr.Yaml.Token.Block
import HdlExpr.Yaml.Token.Quoted

/-!
# Tokens of a text

A document is read character by character.  Characters that are no marks are collected into a plain
scalar, which goes on over lines as long as they are indented further than the key or the item it
belongs to.
-/

namespace HdlExpr.Yaml

/-- How the line of a character is indented, against the key or item that was read last. -/
inductive Indent where
  | same
  | deeper
  | outside
  deriving DecidableEq, Repr, Inhabited

/-- What has been read of a text.

`fresh` tells that only blanks were read on this line, of which there are `margin`.  `anchor` is the
column of the last key or item, zero at the start of a document.  `naming` is set in the name of an
anchor or an alias, `directing` in a directive.  `maps` and `lists` count the brackets that are
open.  `buffer` is the scalar that is being read, which began at `start` if lines have ended since,
and `source` are the characters since the last token, last first. -/
structure Lexer where
  rest : List Char
  before : Option Char := none
  place : Place := {}
  fresh : Bool := true
  margin : Nat := 0
  anchor : Nat := 0
  indent : Indent := .same
  naming : Bool := false
  directing : Bool := false
  maps : Nat := 0
  lists : Nat := 0
  start : Option Place := none
  buffer : Buffer := {}
  source : List Char := []
  block : Option Block := none
  tokens : List Token := []

namespace Lexer

/-! ## Movement -/

/-- Goes over a character without a change of column. -/
def pass (s : Lexer) : Lexer := { s with rest := s.rest.drop 1, before := s.rest.head?.or s.before }

/-- Goes over some characters of the line. -/
def advance (n : Nat) (s : Lexer) : Lexer :=
  { s with
    rest := s.rest.drop n
    before := (s.rest.take n).getLast?.or s.before
    place := { s.place with column := s.place.column + n } }

/-- Goes over a line break. -/
def nextLine (s : Lexer) : Lexer :=
  { s.pass with
    place := ⟨s.place.line + 1, 1⟩
    fresh := true
    margin := 0
    naming := false
    directing := false }

def note (c : Char) (s : Lexer) : Lexer := { s with source := c :: s.source }

/-- Forgets what was collected. -/
def clear (s : Lexer) : Lexer := { s with buffer := {}, source := [], block := none }

/-- Whether no scalar is being read. -/
def isIdle (s : Lexer) : Bool := s.buffer.text.isEmpty

def inFlow (s : Lexer) : Bool := 0 < s.maps || 0 < s.lists

def after (s : Lexer) : List Char := s.rest.drop 1

/-- Whether a tab stands where a key or an item begins. -/
def isTabbed (s : Lexer) : Bool :=
  match s.source.reverse with
  | '\t' :: _ | ' ' :: '\t' :: _ => true
  | _ => false

/-! ## Tokens -/

/-- Where the scalar that is being read begins.  The text of a block is in the first column if
nothing was dropped before it. -/
def scalarPlace (s : Lexer) : Place :=
  match s.start with
  | some place => place
  | none =>
    match s.block with
    | none => { s.place with column := s.place.column - s.buffer.length }
    | some _ =>
      let text := (s.buffer.gap ++ s.buffer.text).reverse
      { s.place with column := if text.isPrefixOf s.source.reverse then 1 else 0 }

/-- The scalar that is being read, if it has text. -/
def scalar? (s : Lexer) : Option Token :=
  let text := match s.block with
    | some block => block.chomp.finish s.buffer.text
    | none => s.buffer.text
  if text.isEmpty then none
  else some
    { kind := if s.block.isSome then .text else .plain
      text := String.ofList text.reverse
      source := s.source.reverse
      place := s.scalarPlace }

/-- Ends the scalar that is being read. -/
def flush (s : Lexer) : Lexer :=
  match s.scalar? with
  | some t => { s with tokens := t :: s.tokens, buffer := {}, source := [], start := none }
  | none => { s with buffer := {}, start := none }

/-- Adds a mark of some characters and goes over it. -/
def mark (kind : Token.Kind) (length : Nat) (s : Lexer) : Lexer :=
  let s := s.flush
  let source := s.source.reverse ++ s.rest.take length
  let t : Token := { kind, text := String.ofList (s.rest.take length), source, place := s.place }
  clear ({ s with tokens := t :: s.tokens }.advance length)

/-! ## Indentation -/

/-- Notes how the line of a character is indented, if it is the first that is not blank. -/
def observe (c : Char) (s : Lexer) : Lexer :=
  if !s.fresh then { s with indent := .same }
  else if isBreak c || c == '\t' then s
  else if c == ' ' then { s with margin := s.margin + 1 }
  else
    { s with
      fresh := false
      indent :=
        if s.anchor = 0 then s.indent
        else if s.anchor < s.place.column then .deeper else .outside }

/-! ## Plain scalars -/

def collect (c : Char) (s : Lexer) : Lexer :=
  { s.note c with buffer := s.buffer.add c }.advance 1

/-- Reads a line break.  In a scalar it is a space, and further breaks stand for themselves. -/
def lineBreak (c : Char) (s : Lexer) : Lexer :=
  let start := if s.isIdle then s.start
    else s.start.or (some { s.place with column := s.place.column - s.buffer.text.length })
  let s := { s with start }
  let s := if s.source.head?.any isBlank then
      { s with source := s.source.dropWhile isBlank, buffer := { s.buffer with gap := [] } }
    else s
  let (c, s) := if c == '\r' && s.after.head? = some '\n' then ('\n', s.pass.note '\r') else (c, s)
  let s := if s.after.isEmpty || s.naming || s.directing then s.flush else s
  let buffer := if !s.isIdle && s.fresh then s.buffer.addBreak else s.buffer.add ' '
  ({ s with buffer }.note c).nextLine

/-- Reads a space.  At the start of a line it is indentation, and it ends a name. -/
def space (s : Lexer) : Lexer :=
  if s.fresh then (s.note ' ').advance 1
  else if s.naming || s.directing then { (s.flush.note ' ').advance 1 with naming := false }
  else s.collect ' '

/-- Reads a tab, which is no indentation and no part of a plain scalar. -/
def tab? (s : Lexer) : Option Lexer :=
  if (!s.isIdle && s.anchor = 0) || s.anchor < s.place.column then
    some (({ s with margin := s.margin + 1 }.note '\t').pass)
  else if !s.inFlow && s.fresh then none
  else some (s.collect '\t')

/-- Reads a comment and the end of its line. -/
def comment (s : Lexer) : Lexer :=
  let s := s.flush
  (s.advance (s.rest.takeWhile (!isBreak ·)).length).nextLine.clear

/-! ## Text blocks -/

/-- Reads the header of a block and the end of its line.  A comment may follow, and the last
character of a text is not read as part of a header. -/
def header? (s : Lexer) : Option Lexer :=
  let line := s.after.takeWhile (!isBreak ·)
  let shown := if (s.after.drop line.length).isEmpty then line.dropLast else line
  let words := match shown.findIdx? (· == '#') with
    | some (n + 1) => shown.take (n + 1)
    | _ => shown
  let options := (words.reverse.dropWhile isBlank).reverse
  let anchor := if s.place.column = 1 then 1 else s.anchor
  match Block.ofHeader? (s.rest.head? = some '>') anchor options with
  | none => none
  | some block =>
    let t : Token := { kind := .header, source := s.source.reverse, place := s.place }
    let s := { s with tokens := t :: s.tokens, anchor, indent := .same }
    let s := s.clear.advance (line.length + 1)
    let s := if s.rest.head? = some '\r' && s.after.head? = some '\n' then s.pass else s
    some { s.nextLine with block := some block }

/-- Makes a token of the text of a block, which ends here. -/
def endBlock (block : Block) (s : Lexer) : Lexer :=
  let text := (block.chomp.finish s.buffer.text).reverse
  let t : Token :=
    { kind := .text, text := String.ofList text, source := s.source.reverse, place := s.place }
  clear { s with tokens := t :: s.tokens }

/-- Reads the last character of a text as part of a block. -/
def lastOfBlock? (block : Block) (c : Char) (s : Lexer) : Option Lexer :=
  let (block, buffer) :=
    if s.fresh && c == ' ' then block.space s.place.column s.buffer else (block, s.buffer.add c)
  let block := block.enter s.place.column
  if block.isShort then none else some ({ s with buffer }.endBlock block |>.advance 1)

def breakOfBlock (block : Block) (c : Char) (s : Lexer) : Lexer :=
  let block := block.leave s.place.column
  let s := { s with buffer := s.buffer.add c, block := some block }.nextLine
  if atMarker s.rest then s.endBlock block else s

/-- Reads a character of the text of a block, other than a blank at the start of a line. -/
def textOfBlock? (block : Block) (c : Char) (s : Lexer) : Option Lexer :=
  let column := s.place.column
  if block.first = 0 && column < block.blank then none
  else
    let block := block.enter column
    if block.isShort then none
    else
      let anchor := if 1 < block.first then block.first - 1 else s.anchor
      let (block, buffer) := block.join column s.buffer
      some ({ s with anchor, block := some block, buffer := buffer.addTight c }.advance 1)

def blockCharacter? (block : Block) (c : Char) (s : Lexer) : Option Lexer :=
  let s := s.note c
  let s := if c == '\r' && s.after.head? = some '\n' then s.pass.note '\n' else s
  let c := if c == '\r' then '\n' else c
  if s.after.isEmpty then s.lastOfBlock? block c
  else if c == '\n' then some (s.breakOfBlock block c)
  else if s.fresh && c == ' ' then
    let (block, buffer) := block.space s.place.column s.buffer
    some ({ s with block := some block, buffer }.advance 1)
  else if c == '\t' && block.isMargin s.place.column && s.fresh then none
  else if c == '\t' && !block.isMargin s.place.column then
    some ({ s with buffer := s.buffer.addTight c }.advance 1)
  else s.textOfBlock? block c

/-! ## Marks -/

/-- Whether just three of the character at hand stand at the start of a line. -/
def atTriple (s : Lexer) : Bool :=
  s.margin = 0 && s.place.column = 1 &&
    (s.rest.takeWhile (some · = s.rest.head?)).length = 3

/-- Whether a colon ends a key.  In a flow mapping it needs no space after it, but a value may hold
one. -/
def endsKey (s : Lexer) : Bool :=
  !s.naming && !s.directing &&
    if s.maps = 0 then s.after.isEmpty || atSpace s.after
    else s.after.head? ≠ some '/' && s.tokens.head?.all (·.kind ≠ .colon)

/-- Reads the colon after a key, which becomes the last key. -/
def colon? (s : Lexer) : Option Lexer :=
  if s.isTabbed then none
  else
    let flushed := s.flush
    let anchor := match s.scalar?, s.tokens.head? with
      | some t, _ => t.place.column
      | none, some t => if t.kind = .quoted then t.place.column else s.anchor
      | none, none => s.anchor
    some ({ flushed with anchor }.mark .colon 1)

/-- Reads the dash before an item. -/
def item? (s : Lexer) : Option Lexer :=
  if s.isTabbed then none else some { s.mark .item 1 with anchor := s.place.column }

def quoted? (s : Lexer) : Option Lexer :=
  (Quoted.read? s.anchor s.place s.source s.rest).map fun (q, rest) =>
    let t : Token :=
      { kind := .quoted, text := String.ofList q.text.reverse, source := q.source.reverse
        place := s.place }
    let crossed := q.place.line ≠ s.place.line
    clear <| advance q.skipped
      { s with
        tokens := t :: s.tokens
        rest
        before := q.source.head?
        place := { q.place with column := q.place.column - q.skipped }
        fresh := s.fresh || crossed
        margin := if crossed then 0 else s.margin
        naming := s.naming && !crossed
        directing := s.directing && !crossed }

/-- Reads a character outside of blocks. -/
def character? (c : Char) (s : Lexer) : Option Lexer :=
  match c with
  | '\x7b' =>
    if s.isIdle || s.inFlow then some { s.mark .openMap 1 with maps := s.maps + 1 }
    else some (s.collect c)
  | '\x7d' =>
    if 0 < s.maps then some { s.mark .closeMap 1 with maps := s.maps - 1 } else some (s.collect c)
  | '[' =>
    if s.isIdle || s.inFlow then some { s.mark .openList 1 with lists := s.lists + 1 }
    else some (s.collect c)
  | ']' =>
    if 0 < s.lists then some { s.mark .closeList 1 with lists := s.lists - 1 }
    else if s.isIdle then none else some (s.collect c)
  | ',' => if s.inFlow then some (s.mark .comma 1) else some (s.collect c)
  | '.' => if s.atTriple then some (s.mark .documentEnd 3) else some (s.collect c)
  | '-' =>
    if s.atTriple && atMarker s.rest then
      some { s.mark .documentStart 3 with anchor := 0, margin := 0 }
    else if !s.isIdle && s.indent = .deeper then
      some { s.collect c with block := some (.ofDash s.place.column) }
    else if s.isIdle && (s.after.isEmpty || atSpace s.after) then s.item?
    else some (s.collect c)
  | ':' => if s.endsKey then s.colon? else some (s.collect c)
  | '?' =>
    if s.isIdle && atSpace s.after then some { s.mark .question 1 with anchor := s.place.column }
    else some (s.collect c)
  | '|' | '>' => if s.isIdle then s.header? else some (s.collect c)
  | '%' =>
    if s.isIdle && s.margin = 0 then some { s.mark .directive 1 with directing := true }
    else some (s.collect c)
  | '&' => if s.isIdle then some { s.mark .anchor 1 with naming := true } else some (s.collect c)
  | '*' => if s.isIdle then some { s.mark .alias 1 with naming := true } else some (s.collect c)
  | '#' =>
    if s.isIdle || s.before.any (fun c => isBlank c || isBreak c) then some s.comment
    else some (s.collect c)
  | '\'' | '"' => if s.isIdle then s.quoted? else some (s.collect c)
  | '!' | '@' | '\x60' => if s.isIdle then none else some (s.collect c)
  | '\r' | '\n' => some (s.lineBreak c)
  | ' ' => some s.space
  | '\t' => s.tab?
  | c => some (s.collect c)

/-- Leaves a block at the first line that is not indented like its text.  A block whose header is in
the first column has no such end. -/
def leaveBlock? (s : Lexer) : Option Lexer :=
  match s.tokens with
  | [] => some { s with block := none }
  | t :: _ =>
    if t.place.column = 1 then none
    else if t.kind = .text then some { s with block := none }
    else
      let empty : Token := { kind := .text, place := s.place }
      some { s with block := none, tokens := empty :: s.tokens }

def step? (c : Char) (s : Lexer) : Option Lexer :=
  let s := s.observe c
  let s := if s.indent = .outside then s.flush else s
  match s.block with
  | none => s.character? c
  | some block =>
    if s.indent = .outside then s.leaveBlock?.bind (character? c) else s.blockCharacter? block c

/-- Reads to the end of a text. -/
def run? : Nat → Lexer → Option Lexer
  | 0, _ => none
  | fuel + 1, s =>
    match s.rest with
    | [] => some s.flush
    | c :: _ => (s.step? c).bind (run? fuel)

end Lexer

/-- The tokens of a text; there are none if a character has no place where it stands. -/
def Token.read? (text : String) : Option (List Token) :=
  let rest := text.toList
  (Lexer.run? (rest.length + 1) { rest }).map (·.tokens.reverse)

end HdlExpr.Yaml
