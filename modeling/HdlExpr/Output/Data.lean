import HdlExpr.Ir.Doc
import HdlExpr.Text.Quoted
import HdlExpr.Text.Typeset
import HdlExpr.Yaml.Scalar
import HdlExpr.Yaml.Timestamp

/-!
# Structured output

Results as nested data, and their text as JSON and as YAML.
-/

namespace HdlExpr.Output

/-- Text, other scalars by their spelling, lists, and objects with members in order. -/
inductive Data where
  | text (s : String)
  | scalar (spelling : String)
  | list (items : List Data)
  | object (members : List (String × Data))
  deriving Inhabited

namespace Data

/-- A member that is left out when it is empty. -/
def textMember (name value : String) : List (String × Data) :=
  if value = "" then [] else [(name, .text value)]

mutual

/-- The members of an intermediate representation; only the kind is never left out. -/
def ofDoc : Ir.Doc → Data
  | ⟨kind, op, value, name, ref, direction, constant, operands⟩ =>
    .object <|
      [("kind", .text kind)] ++ textMember "op" op ++ textMember "value" value ++
      textMember "name" name ++ textMember "ref" ref ++ textMember "direction" direction ++
      (if constant then [("constant", .scalar "true")] else []) ++
      (if operands.isEmpty then [] else [("operands", .list (ofDocs operands))])

def ofDocs : List Ir.Doc → List Data
  | [] => []
  | d :: rest => ofDoc d :: ofDocs rest

end

/-! ## JSON -/

/-- The start of a line at a depth of nesting. -/
def indent (depth : Nat) : String := String.ofList (List.replicate (2 * depth) ' ')

/-- Lines between brackets, or brackets alone. -/
def bracketed (opening closing : String) (depth : Nat) (lines : List String) : String :=
  if lines.isEmpty then opening ++ closing
  else
    opening ++ "\n" ++ ",\n".intercalate (lines.map (indent (depth + 1) ++ ·)) ++ "\n" ++
      indent depth ++ closing

mutual

/-- JSON with two spaces for each level, safe to be put into a web page. -/
def json (depth : Nat) : Data → String
  | .text s => Text.jsonString true s
  | .scalar s => s
  | .list items => bracketed "[" "]" depth (jsonItems (depth + 1) items)
  | .object members => bracketed "\x7b" "\x7d" depth (jsonMembers (depth + 1) members)

def jsonItems (depth : Nat) : List Data → List String
  | [] => []
  | d :: rest => json depth d :: jsonItems depth rest

def jsonMembers (depth : Nat) : List (String × Data) → List String
  | [] => []
  | m :: rest => jsonMember depth m :: jsonMembers depth rest

def jsonMember (depth : Nat) : String × Data → String
  | (name, d) => Text.jsonString true name ++ ": " ++ json depth d

end

/-! ## YAML -/

/-- The words that stand for a null or a truth value in some version of YAML. -/
def reservedWords : List String :=
  ["null", "Null", "NULL", "~", "false", "False", "FALSE", "true", "True", "TRUE",
   "y", "Y", "yes", "Yes", "YES", "on", "On", "ON",
   "n", "N", "no", "No", "NO", "off", "Off", "OFF"]

/-- Whether a mark in a text, followed by what follows it, would end a plain scalar. -/
def breaksPlain : List Char → Bool
  | [] => false
  | '#' :: _ | '\\' :: _ => true
  | ':' :: ' ' :: _ | '-' :: ' ' :: _ => true
  | _ :: rest => breaksPlain rest

/-- The characters that a plain scalar may not begin with. -/
def leadingMarks : List Char :=
  ['*', '&', '[', '\x7b', '\x7d', ']', ',', '!', '|', '>', '%', '\'', '"', '@', ' ', '\x60']

/-- Whether text must be quoted to be read as this text. -/
def needsQuotes (s : String) : Bool :=
  let cs := s.toList
  cs.isEmpty || reservedWords.contains s || Yaml.isNumber cs ||
    cs.head?.any leadingMarks.contains || cs.getLast?.any (fun c => c == ':' || c == ' ') ||
    Yaml.Timestamp.isTimestamp cs || breaksPlain cs

/-! ### Text of several lines -/

/-- What ends the lines of a text: a carriage return and a line feed if all lines end so, and
otherwise the one of the two that is there more often. -/
def lineBreak (cs : List Char) : List Char :=
  let feeds := cs.count '\n'
  let returns := cs.count '\r'
  let pairs := cs.length - (Text.dropReturns cs).length
  if feeds = pairs && returns = pairs then ['\r', '\n']
  else if feeds < returns then ['\r']
  else ['\n']

/-- The text between one line break and the next. -/
def splitAt (mark : List Char) : Nat → List Char → List (List Char)
  | 0, cs => [cs]
  | _, [] => [[]]
  | fuel + 1, c :: rest =>
    if mark.isPrefixOf (c :: rest) then [] :: splitAt mark fuel ((c :: rest).drop mark.length)
    else match splitAt mark fuel rest with
      | line :: lines => (c :: line) :: lines
      | [] => [[c]]

def dropEnd (ending cs : List Char) : List Char :=
  if ending.isSuffixOf cs then cs.take (cs.length - ending.length) else cs

/-- The header and the lines of a text under a key in a column, if it has more than one line. -/
def literalBlock? (column : Nat) (s : String) : Option String :=
  let cs := s.toList
  let mark := lineBreak cs
  match splitAt mark cs.length cs with
  | [] | [_] => none
  | lines =>
    let header :=
      if (mark ++ mark).isSuffixOf cs then "|+" else if mark.isSuffixOf cs then "|" else "|-"
    let gap := List.replicate (column + 2) ' '
    let body := List.intercalate mark (lines.map (gap ++ ·))
    let body := dropEnd gap (dropEnd (mark ++ gap) body)
    some (header ++ String.ofList (mark ++ body))

def yamlText (column : Nat) (s : String) : String :=
  if needsQuotes s then Text.quote s else (literalBlock? column s).getD s

/-! ### Documents -/

def blanks (n : Nat) : String := String.ofList (List.replicate n ' ')

/-- The lines of an item in a column: a dash stands before the first, and the others are indented
behind it. -/
def dashed (column : Nat) (lines : List String) : List String :=
  match lines with
  | [] => []
  | first :: rest =>
    let indent (l : String) : String :=
      if l.length ≤ column then "" else blanks (column + 2) ++ String.ofList (l.toList.drop column)
    (blanks column ++ "- " ++ String.ofList (first.toList.drop column)) :: rest.map indent

def linesOf (s : String) : List String := (Text.splitLines s.toList).map String.ofList

def dashedText (column : Nat) (s : String) : List String :=
  let gap := List.replicate (column + 2) ' '
  match linesOf (yamlText column s) with
  | [] => []
  | first :: rest =>
    let indent (l : String) : String :=
      let kept := if gap.isPrefixOf l.toList then l.toList.drop gap.length else l.toList
      if kept.length ≤ column then "" else String.ofList (gap ++ kept.drop column)
    (blanks column ++ "- " ++ first) :: rest.map indent

mutual

/-- The lines of data in a column; a list is not indented under its key. -/
def yaml (column : Nat) : Data → List String
  | .text s => linesOf (blanks column ++ yamlText column s)
  | .scalar s => [blanks column ++ s]
  | .list items => if items.isEmpty then [blanks column ++ "[]"] else yamlItems column items
  | .object members =>
    if members.isEmpty then [blanks column ++ "\x7b\x7d"] else yamlMembers column members

def yamlItems (column : Nat) : List Data → List String
  | [] => []
  | .text s :: rest => dashedText column s ++ yamlItems column rest
  | d :: rest => dashed column (yaml column d) ++ yamlItems column rest

def yamlMembers (column : Nat) : List (String × Data) → List String
  | [] => []
  | m :: rest => yamlMember column m ++ yamlMembers column rest

def yamlMember (column : Nat) : String × Data → List String
  | (name, .text s) => linesOf (blanks column ++ name ++ ": " ++ yamlText column s)
  | (name, .scalar s) => [blanks column ++ name ++ ": " ++ s]
  | (name, .list items) =>
    if items.isEmpty then [blanks column ++ name ++ ": []"]
    else (blanks column ++ name ++ ":") :: yamlItems column items
  | (name, .object members) =>
    if members.isEmpty then [blanks column ++ name ++ ": \x7b\x7d"]
    else (blanks column ++ name ++ ":") :: yamlMembers (column + 2) members

end

def yamlDocument (d : Data) : String := String.join ((yaml 0 d).map (· ++ "\n"))

end Data

end HdlExpr.Output
