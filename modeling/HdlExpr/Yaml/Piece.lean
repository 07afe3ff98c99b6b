import HdlExpr.Yaml.Token

/-!
# Pieces of YAML documents

A piece is a token, or some tokens that belong together whatever stands around them: a header and
its text, an anchor and its name, a key and its colon, and a key with a scalar on the same line.
-/

namespace HdlExpr.Yaml

inductive Piece where
  | token (t : Token)
  /-- A block of text, which may have no content. -/
  | block (header : Token) (content : Option Token)
  | alias (mark : Token) (name : Piece)
  /-- A name for the node that follows. -/
  | anchor (mark : Token) (name : Piece)
  /-- A name and the scalar on the same line. -/
  | anchored (mark : Token) (name value : Piece)
  /-- A key after a question mark. -/
  | asked (mark : Token) (key : Piece)
  | key (key : Piece) (colon : Token)
  | pair (key value : Piece)
  /-- The words of a directive. -/
  | directive (mark : Token) (words : List Token)
  deriving Inhabited

namespace Piece

def first : Piece → Token
  | .token t | .block t _ | .alias t _ | .anchor t _ | .anchored t _ _ | .asked t _ => t
  | .directive t _ => t
  | .key p _ | .pair p _ => p.first

def kind (p : Piece) : Token.Kind := p.first.kind

def line (p : Piece) : Nat := p.first.place.line

def column (p : Piece) : Nat := p.first.place.column

def isKey : Piece → Bool
  | .asked _ _ | .key _ _ | .pair _ _ => true
  | _ => false

/-- Whether a piece belongs to a mapping: a key, or a brace. -/
def isEntry : Piece → Bool
  | .token t => t.kind = .openMap || t.kind = .closeMap
  | p => p.isKey

def isAnchor : Piece → Bool
  | .anchor _ _ => true
  | _ => false

def isScalar (p : Piece) : Bool := !p.isKey && p.first.beginsScalar

/-- Whether a token can be the key before a colon. -/
def canBeKey (p : Piece) : Bool :=
  match p.kind with
  | .directive | .documentStart | .documentEnd | .comma | .colon | .item => false
  | .openMap | .closeMap | .openList | .closeList => false
  | _ => true

/-! ## Steps -/

def joinBlocks : List Token → List Piece
  | [] => []
  | [t] => [if t.kind = .header then .block t none else .token t]
  | t :: next :: rest =>
    if t.kind = .header then .block t (some next) :: joinBlocks rest
    else .token t :: joinBlocks (next :: rest)

/-- Joins anchors and aliases with their names, and anchors with a scalar on the same line.
Something must follow an anchor, but no item of a sequence on its line. -/
def joinNames : Nat → List Piece → Option (List Piece)
  | 0, _ => none
  | _, [] => some []
  | fuel + 1, p :: rest =>
    match p.kind, rest with
    | .anchor, name :: value :: rest =>
      if value.line = p.line && value.kind = .item then none
      else if value.line = p.line && value.isScalar then
        (joinNames fuel rest).map (.anchored p.first name value :: ·)
      else (joinNames fuel (value :: rest)).map (.anchor p.first name :: ·)
    | .anchor, _ => none
    | .alias, name :: rest => (joinNames fuel rest).map (.alias p.first name :: ·)
    | .alias, [] => none
    | _, rest => (joinNames fuel rest).map (p :: ·)

def joinQuestions : List Piece → Option (List Piece)
  | [] => some []
  | [p] => if p.kind = .question then none else some [p]
  | p :: next :: rest =>
    if p.kind = .question then (joinQuestions rest).map (.asked p.first next :: ·)
    else (joinQuestions (next :: rest)).map (p :: ·)

def joinKeys : List Piece → Option (List Piece)
  | [] => some []
  | [p] => if p.kind = .colon then none else some [p]
  | p :: next :: rest =>
    if p.kind = .colon then none
    else if next.kind = .colon then
      if p.canBeKey then (joinKeys rest).map (.key p next.first :: ·) else none
    else (joinKeys (next :: rest)).map (p :: ·)

/-- Joins keys with the scalars on their lines. -/
def joinPairs : List Piece → List Piece
  | [] => []
  | [p] => [p]
  | p :: value :: rest =>
    if p.isKey && value.line = p.line && !value.isAnchor && value.isScalar then
      .pair p value :: joinPairs rest
    else p :: joinPairs (value :: rest)

/-- Joins the words of directives.  A document must start after a directive. -/
def joinDirectives : Nat → List Piece → Option (List Piece)
  | 0, _ => none
  | _, [] => some []
  | fuel + 1, p :: rest =>
    if p.kind = .directive then
      let words := match rest with
        | [] => []
        | name :: rest => name :: rest.takeWhile (·.line = p.line)
      let rest := rest.drop words.length
      if words ≠ [] && (rest.head?.map kind) = some .documentStart then
        (joinDirectives fuel rest).map (.directive p.first (words.map first) :: ·)
      else none
    else (joinDirectives fuel rest).map (p :: ·)

def ofTokens? (tokens : List Token) : Option (List Piece) := do
  let fuel := tokens.length + 1
  let pieces ← joinNames fuel (joinBlocks tokens)
  let pieces ← joinKeys (← joinQuestions pieces)
  joinDirectives fuel (joinPairs pieces)

/-! ## Documents -/

/-- Splits pieces into documents, of which `done` are the pieces of the first, in reverse.  After
the mark that starts a document no key and no item may stand on its line, and after the mark that
ends one no scalar may follow.  A document that starts where another has just started is the
last. -/
def documents? (done : List Piece) : List Piece → Option (List (List Piece))
  | [] => some [done.reverse]
  | p :: rest =>
    match p.kind with
    | .documentStart =>
      let before := if done.isEmpty then [] else [done.reverse]
      match rest with
      | [] => some (before ++ [[]])
      | next :: _ =>
        if next.kind = .documentStart then some (before ++ [[]])
        else if next.line = p.line && (next.isKey || next.kind = .item) then none
        else (documents? [] rest).map (before ++ ·)
    | .documentEnd =>
      let before := if done.isEmpty then [] else [done.reverse]
      match rest with
      | [] => some before
      | next :: _ => if next.isScalar then none else (documents? [] rest).map (before ++ ·)
    | _ => documents? (p :: done) rest

end Piece

end HdlExpr.Yaml
