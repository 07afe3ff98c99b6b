import HdlExpr.Text.Width

/-!
# Text in columns

Text of several lines as a block of columns, in which all lines are as wide as the widest.
-/

namespace HdlExpr.Text

def splitLines (cs : List Char) : List (List Char) :=
  match cs with
  | [] => [[]]
  | c :: rest =>
    if c = '\n' then [] :: splitLines rest
    else match splitLines rest with
      | line :: lines => (c :: line) :: lines
      | [] => [[c]]

/-- Writes a tab as four blanks. -/
def expandTabs (cs : List Char) : List Char :=
  cs.flatMap fun c => if c = '\t' then [' ', ' ', ' ', ' '] else [c]

/-- Ends lines with a line feed alone. -/
def dropReturns : List Char → List Char
  | '\r' :: '\n' :: rest => '\n' :: dropReturns rest
  | c :: rest => c :: dropReturns rest
  | [] => []

/-- Fills lines with blanks up to the width of the widest. -/
def block (lines : List (List Char)) : List (List Char) :=
  let widest := (lines.map width).foldl max 0
  lines.map fun line => line ++ List.replicate (widest - width line) ' '

def typeset (s : String) : String :=
  "\n".intercalate ((block (splitLines (dropReturns (expandTabs s.toList)))).map String.ofList)

end HdlExpr.Text
