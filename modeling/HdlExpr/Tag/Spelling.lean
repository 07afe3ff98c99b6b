import HdlExpr.Tag.Style
import HdlExpr.Text.Printable

/-!
# Spellings of tags

A tag may be written by its exact name, or by any spelling that differs from it only in letter
case and word separators, as long as no other tag could be meant.
-/

namespace HdlExpr.Tag

section

-- How words are written with `_` between them.
variable (snake : List Char → List Char)

/-- The words of a spelling, without the marks between them. -/
def key (s : List Char) : List Char := (snake (Text.trim s)).filter (· != '_')

/-- Tags by their spellings, later ones first.  A spelling that could mean several tags has the tag
of no category. -/
abbrev Index := List (List Char × Tag)

namespace Index

/-- Enters a tag under the key of its name.  A key that already has another tag loses it. -/
def addKey (index : Index) (t : Tag) : Index :=
  let k := key snake t.name.toList
  match index.lookup k with
  | some other => (k, if other = t then t else .invalid) :: index
  | none => (k, t) :: index

def addName (index : Index) (t : Tag) : Index := (t.name.toList, t) :: index

/-- The category that a text stands for. -/
def find? (index : Index) (s : List Char) : Option Tag := (index.lookup s).filter isValid

end Index

/-- All tags, first by the keys of their names and then by the names themselves. -/
def index : Index := all.foldl Index.addName (all.foldl (Index.addKey snake) [])

end

def ofSpelling? (s : String) (snake : List Char → List Char := Style.delimited '_' none) :
    Option Tag :=
  ((index snake).find? s.toList).or ((index snake).find? (key snake s.toList))

end HdlExpr.Tag
