import HdlExpr.Tag.Basic

/-!
# Styles of tag names

Tag names in the styles that programming languages use.  Names are made of the letters, digits and
marks of ASCII.
-/

namespace HdlExpr.Tag

inductive Style where
  | canonical
  | snake
  | camel
  | kebab
  deriving DecidableEq, Repr

namespace Style

/-- The marks between words. -/
def isSeparator (c : Char) : Bool := [' ', '_', '-', '.'].contains c

/-- Whether one character may join the character after it although a new word starts between
them. -/
def isJoint (c next : Char) : Bool :=
  (c.isUpper && (next.isLower || next.isDigit)) || (c.isLower && (next.isUpper || next.isDigit)) ||
    (c.isDigit && (next.isUpper || next.isLower))

/-- The words of a name in small letters with a mark between them; `before` is the character before
the name. -/
def delimited (mark : Char) (before : Option Char) : List Char → List Char
  | [] => []
  | c :: rest =>
    let next := rest.head?
    let written :=
      match next with
      | some d =>
        if isJoint c d then
          (if c.isUpper && d.isLower && before.any Char.isUpper then [mark] else []) ++
            [c.toLower] ++ (if c.isLower || c.isDigit || d.isDigit then [mark] else [])
        else if isSeparator c then [mark]
        else [c.toLower]
      | none => if isSeparator c then [mark] else [c.toLower]
    written ++ delimited mark (some c) rest

/-- Words that each start with a capital; `capital` tells whether one is due, and `after` whether
the character before is one. -/
def joined (capital after : Bool) : List Char → List Char
  | [] => []
  | c :: rest =>
    let shown := if capital then c.toUpper else if after && c.isUpper then c.toLower else c
    if c.isAlpha then shown :: joined false c.isUpper rest
    else if c.isDigit then c :: joined true false rest
    else joined (isSeparator c) false rest

def spell (style : Style) (name : String) : String :=
  match style with
  | .canonical => name
  | .snake => String.ofList (delimited '_' none name.toList)
  | .kebab => String.ofList (delimited '-' none name.toList)
  | .camel => String.ofList (joined true false name.toList)

end Style

end HdlExpr.Tag
