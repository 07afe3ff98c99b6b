import HdlExpr.Yaml.Piece
import HdlExpr.Yaml.Token.Lexer

/-!
# Nodes of YAML documents

Block collections are told apart by the columns of their keys and items, flow collections by their
brackets.  A mapping may not have a key twice.
-/

namespace HdlExpr.Yaml

/-- How a name comes to a scalar: an anchor gives it one, or it stands for a scalar that has one. -/
inductive Label where
  | bare
  | anchor (name : String)
  | alias (name : String)
  deriving Inhabited

/-- A node.  A mapping has its entries in the order in which they are written, and a cycle is an
alias inside of the collection that it stands for. -/
inductive Node where
  | scalar (v : Plain) (label : Label := .bare)
  | list (items : List Node)
  | map (entries : List (Plain × Node))
  | cycle
  deriving Inhabited

namespace Node

/-- A node with another label, if it is a scalar. -/
def labelled (label : Label) : Node → Node
  | .scalar v _ => .scalar v label
  | n => n

/-! ## Data -/

/-- Adds an entry to data; the last one with a key counts. -/
def addEntry (key : String) (v : Plain) (entries : List (String × Plain)) :
    List (String × Plain) :=
  entries.filter (·.1 != key) ++ [(key, v)]

mutual

/-- The data that a node describes; a cycle is null. -/
def toPlain : Node → Plain
  | .scalar v _ => v
  | .list items => .list (itemsToPlain items)
  | .map entries => .map (entriesToPlain [] entries)
  | .cycle => .null

def itemsToPlain : List Node → List Plain
  | [] => []
  | n :: rest => toPlain n :: itemsToPlain rest

def entriesToPlain (done : List (String × Plain)) : List (Plain × Node) → List (String × Plain)
  | [] => done
  | entry :: rest => entriesToPlain (entryToPlain done entry) rest

def entryToPlain (done : List (String × Plain)) : Plain × Node → List (String × Plain)
  | (key, n) => addEntry ((keyText? key).getD "") (toPlain n) done

end

/-- The entries of a mapping under the texts of their keys, unless two keys have the same text. -/
def fields? : Node → Option (List (String × Node))
  | .map entries =>
    let fields := entries.map fun (key, n) => ((scalarText? key).getD "", n)
    if (fields.map (·.1)).Nodup then some fields else none
  | _ => none

mutual

/-- How many nodes are around the innermost node, which counts too. -/
def depth : Node → Nat
  | .scalar .. | .cycle => 1
  | .list items => depthOfItems items + 1
  | .map entries => depthOfEntries entries + 1

def depthOfItems : List Node → Nat
  | [] => 0
  | n :: rest => max (depth n) (depthOfItems rest)

def depthOfEntries : List (Plain × Node) → Nat
  | [] => 0
  | entry :: rest => max (depthOfEntry entry) (depthOfEntries rest)

def depthOfEntry : Plain × Node → Nat
  | (_, n) => depth n

end

def deepest : Nat := 10000

/-! ## Reading -/

/-- The pieces of a document that are left, and the nodes that have been named so far. -/
structure Cursor where
  pieces : List Piece
  names : List (String × Node) := []

/-- Reads from a cursor; there is no result when the document is malformed. -/
abbrev Reader := StateT Cursor Option

namespace Reader

def malformed {α : Type} : Reader α := fun _ => none

def peek : Reader (Option Piece) := fun s => some (s.pieces.head?, s)

def second : Reader (Option Piece) := fun s => some ((s.pieces.drop 1).head?, s)

def drop : Reader Unit := fun s => some ((), { s with pieces := s.pieces.drop 1 })

def bind (name : String) (n : Node) : Reader Unit := fun s =>
  some ((), { s with names := (name, n) :: s.names })

def named (name : String) : Reader Node := fun s => (s.names.lookup name).map (·, s)

/-- The column of a piece; nothing is left of all columns. -/
def columnOf (p : Option Piece) : Nat := (p.map (·.column)).getD 0

/-! ## Scalars -/

def nameOf (p : Piece) : Reader String :=
  match p with
  | .token t => if t.scalar?.isSome then pure t.text else malformed
  | _ => malformed

/-- The scalar, or the named node, that a piece stands for. -/
def scalar : Piece → Reader Node
  | .token t =>
    match t.scalar? with
    | some v => pure (.scalar v)
    | none => malformed
  | .block _ none => pure (.scalar (.text ""))
  | .block _ (some t) =>
    match t.scalar? with
    | some (.text s) => pure (.scalar (.text s))
    | _ => malformed
  | .alias _ name => do
    let name ← nameOf name
    return (← named name).labelled (.alias name)
  | .anchored _ name value => do
    let name ← nameOf name
    bind name (.scalar .null)
    let n ← scalar value
    bind name n
    return n.labelled (.anchor name)
  | _ => malformed

/-! ## Keys -/

/-- A key, the text by which it is told from other keys, and the first token of it. -/
structure Key where
  text : String
  value : Plain
  first : Token

def keyText : Piece → String
  | .anchored _ _ value => keyText value
  | p => p.first.text

/-- Whether a key spans lines.  In a flow mapping the colon must stand on the line on which the key
ends, and elsewhere a text must stand on one line. -/
def spansLines (flow : Bool) (t colon : Token) : Bool :=
  let isMargin (c : Char) : Bool := c == ' ' || isBreak c
  let source := t.source.dropWhile isMargin
  if flow then
    let source := if t.isBareText then (source.reverse.dropWhile isMargin).reverse else source
    t.place.line + countBreaks source ≠ colon.place.line
  else (t.isBareText || t.kind = .quoted) && 0 < countBreaks source

/-- Reads the key of a piece; `seen` are the texts of the keys before it. -/
def key (flow : Bool) (seen : List String) (p : Piece) : Reader Key := do
  let (word, colon) ← match p with
    | .key (.asked _ word) colon | .key word colon => pure (word, colon)
    | .asked _ word => pure (word, word.first)
    | _ => malformed
  let text := keyText word
  if seen.contains text || spansLines flow p.first colon then malformed
  match ← scalar word with
  | .scalar value _ => return { text, value, first := p.first }
  | _ => malformed

/-! ## Collections -/

def isMark (kind : Token.Kind) (p : Option Piece) : Bool := p.any (·.kind = kind)

/-- Whether the value of a key or an item is left out, though it has a name: nothing else stands on
the line, and what follows belongs outside. -/
def isNamedNull (parent : Token) (p next : Option Piece) (isNext : Piece → Bool) : Bool :=
  p.any (fun p => p.isAnchor && p.line = parent.place.line) &&
    (columnOf next < parent.place.column ||
      (columnOf next = parent.place.column && next.any isNext))

def namedNull (p : Option Piece) : Reader Node := do
  match p with
  | some (.anchor _ name) =>
    drop
    let name ← nameOf name
    bind name (.scalar .null)
    return .scalar .null (.anchor name)
  | _ => malformed

mutual

/-- Reads a node; `flow` tells whether brackets are open. -/
def node (flow : Bool) : Nat → Reader Node
  | 0 => malformed
  | fuel + 1 => do
    match ← peek with
    | none => malformed
    | some (.anchor _ name) =>
      drop
      let name ← nameOf name
      match ← peek with
      | some (.anchor ..) | some (.anchored ..) => malformed
      | _ =>
        bind name .cycle
        let n ← node flow fuel
        bind name n
        return n.labelled (.anchor name)
    | some p =>
      if p.isKey then return .map (← blockEntries flow fuel [])
      match p.kind with
      | .openMap => drop; return .map (← flowEntries fuel [] [])
      | .openList => drop; return .list (← flowItems fuel [])
      | .item => return .list (← blockItems flow fuel)
      | _ =>
        let n ← scalar p
        drop
        return n

/-- Reads the entries of a block mapping, which are in one column; `seen` are the keys before. -/
def blockEntries (flow : Bool) : Nat → List String → Reader (List (Plain × Node))
  | 0, _ => malformed
  | fuel + 1, seen => do
    match ← peek with
    | none => malformed
    | some p =>
      let (k, n) ← match p with
        | .pair word v => do
          let k ← key flow seen word
          let n ← scalar v
          drop
          let next ← peek
          let ends := flow && (isMark .comma next || isMark .closeList next)
          if p.column < columnOf next && !ends then malformed
          pure (k, n)
        | p => do
          let k ← key flow seen p
          drop
          if (← peek).any fun next => next.line = p.line && next.kind = .item then malformed
          pure (k, ← entryValue flow fuel k.first)
      let next ← peek
      if columnOf next ≠ p.column || (flow && isMark .closeList next) then return [(k.value, n)]
      if !next.any (·.isEntry) then malformed
      if isMark .closeMap next then
        drop
        return [(k.value, n)]
      return (k.value, n) :: (← blockEntries flow fuel (k.text :: seen))

/-- Reads the value of a key.  It is null if what follows belongs outside. -/
def entryValue (flow : Bool) : Nat → Token → Reader Node
  | 0, _ => malformed
  | fuel + 1, parent => do
    let column := parent.place.column
    let next ← peek
    match next with
    | none => return .scalar .null
    | some p =>
      if p.column ≠ column && p.line = parent.place.line && p.isKey then malformed
      if p.column = column && p.isEntry then return .scalar .null
      if isNamedNull parent next (← second) Piece.isEntry then namedNull next
      else if p.column ≤ column && p.isAnchor then malformed
      else if p.column < column then return .scalar .null
      else node flow fuel

/-- Reads the items of a block sequence, which are in one column. -/
def blockItems (flow : Bool) : Nat → Reader (List Node)
  | 0 => malformed
  | fuel + 1 => do
    match ← peek with
    | none => malformed
    | some p =>
      drop
      let n ← itemValue flow fuel p.first
      let next ← peek
      if isMark .item next && columnOf next = p.column then return n :: (← blockItems flow fuel)
      return [n]

def itemValue (flow : Bool) : Nat → Token → Reader Node
  | 0, _ => malformed
  | fuel + 1, parent => do
    let column := parent.place.column
    let next ← peek
    match next with
    | none => return .scalar .null
    | some p =>
      if p.column = column && p.kind = .item then return .scalar .null
      if isNamedNull parent next (← second) (·.kind = .item) then namedNull next
      else if p.column ≤ column && p.isAnchor then malformed
      else if p.column < column then return .scalar .null
      else node flow fuel

/-- Reads the rest of a flow sequence; `done` are the items before, in reverse. -/
def flowItems : Nat → List Node → Reader (List Node)
  | 0, _ => malformed
  | fuel + 1, done => do
    if isMark .closeList (← peek) then
      drop
      return done.reverse
    if !done.isEmpty then
      if !isMark .comma (← peek) then malformed
      drop
    if isMark .closeList (← peek) then
      drop
      return done.reverse
    flowItems fuel ((← node true fuel) :: done)

/-- Reads the rest of a flow mapping; `done` are the entries before, in reverse, and `seen` are
their keys. -/
def flowEntries : Nat → List String → List (Plain × Node) → Reader (List (Plain × Node))
  | 0, _, _ => malformed
  | fuel + 1, seen, done => do
    if isMark .closeMap (← peek) then
      drop
      return done.reverse
    if isMark .comma (← peek) then drop
    else if !done.isEmpty then malformed
    if isMark .closeMap (← peek) then
      drop
      return done.reverse
    match ← peek with
    | none => malformed
    | some (.pair word v) =>
      let k ← key true seen word
      let n ← scalar v
      drop
      flowEntries fuel (k.text :: seen) ((k.value, n) :: done)
    | some p =>
      let next ← second
      let isLast := isMark .closeMap next || isMark .comma next
      if p.isKey then
        let k ← key true seen p
        drop
        let n ← if isLast then pure (.scalar .null) else node true fuel
        flowEntries fuel (k.text :: seen) ((k.value, n) :: done)
      else if isLast then
        match ← scalar p with
        | .scalar value _ =>
          drop
          flowEntries fuel seen ((value, .scalar .null) :: done)
        | _ => malformed
      else malformed

end

end Reader

/-! ## Documents -/

/-- Whether a directive is in order: one that tells the version must tell a known one. -/
def knowsDirective (words : List Token) : Bool :=
  match words.map (·.text) with
  | ["YAML", version] => ["1.0", "1.1", "1.2", "1.3"].contains version
  | "YAML" :: _ => false
  | _ => true

/-- Reads one document; one that holds no node, or just a name for nothing, has no result. -/
def ofPieces? (names : List (String × Node)) (pieces : List Piece) :
    Option (Option Node × List (String × Node)) :=
  match pieces with
  | [] => some (none, names)
  | [.directive _ words] => if knowsDirective words then some (none, names) else none
  | p :: _ =>
    match (Reader.node false (4 * pieces.length + 4)).run { pieces, names } with
    | some (n, { pieces := [], names }) =>
      let isNothing := p.isAnchor && n matches .scalar .null _
      if deepest < n.depth then none else some (if isNothing then none else some n, names)
    | _ => none

/-- Reads all documents, in which names keep their meaning, and gives the first that has a node. -/
def ofDocuments? : List (String × Node) → List (List Piece) → Option (Option Node)
  | _, [] => some none
  | names, pieces :: rest =>
    match ofPieces? names pieces with
    | none => none
    | some (found, names) => (ofDocuments? names rest).map found.or

/-- The first document of a text: nothing in a text without a node, and no result for a malformed
one. -/
def read (text : String) : Option (Option Node) := do
  let pieces ← Piece.ofTokens? (← Token.read? text)
  ofDocuments? [] (← Piece.documents? [] pieces)

end Node

end HdlExpr.Yaml
