import HdlExpr.Yaml.Scalar

/-!
# Tokens of YAML documents

A token is a mark, such as the dash before an item, or a scalar.  It knows its place, because
indentation tells to which collection a token belongs.
-/

namespace HdlExpr.Yaml

/-- A place in a document; lines and columns count from one. -/
structure Place where
  line : Nat := 1
  column : Nat := 1
  deriving DecidableEq, Repr, Inhabited

namespace Token

inductive Kind where
  | plain
  | quoted
  /-- The text of a block, or of a plain scalar with dashes at the start of its lines. -/
  | text
  /-- The mark before the text of a block. -/
  | header
  | item
  | question
  | colon
  | comma
  | openMap
  | closeMap
  | openList
  | closeList
  | anchor
  | alias
  | directive
  | documentStart
  | documentEnd
  deriving DecidableEq, Repr, Inhabited

end Token

/-- A token: what it says, and the characters it was read from with the white space before them. -/
structure Token where
  kind : Token.Kind
  text : String := ""
  source : List Char := []
  place : Place
  deriving DecidableEq, Repr, Inhabited

namespace Token

/-- What a scalar stands for; marks stand for nothing. -/
def scalar? (t : Token) : Option Plain :=
  match t.kind with
  | .plain => some (resolve t.text.toList)
  | .quoted | .text => some (.text t.text)
  | _ => none

/-- Whether a token is text that was written without quotes. -/
def isBareText (t : Token) : Bool :=
  match t.kind, t.scalar? with
  | .quoted, _ => false
  | _, some (.text _) => true
  | _, _ => false

/-- Whether a token begins a scalar, with or without a name. -/
def beginsScalar (t : Token) : Bool :=
  match t.kind with
  | .plain | .quoted | .text | .header | .anchor | .alias => true
  | _ => false

end Token

/-! ## Characters -/

def isBreak (c : Char) : Bool := c == '\n' || c == '\r'

def isBlank (c : Char) : Bool := c == ' ' || c == '\t'

/-- Whether white space begins a text. -/
def atSpace : List Char → Bool
  | [] => false
  | c :: _ => isBlank c || isBreak c

/-- Whether a line that starts or ends a document begins here. -/
def atMarker : List Char → Bool
  | '-' :: '-' :: '-' :: rest | '.' :: '.' :: '.' :: rest => rest.isEmpty || atSpace rest
  | _ => false

/-- How many line breaks a text has; a carriage return and the line feed after it are one. -/
def countBreaks : List Char → Nat
  | [] => 0
  | '\r' :: '\n' :: rest => countBreaks rest + 1
  | c :: rest => countBreaks rest + if isBreak c then 1 else 0

end HdlExpr.Yaml
