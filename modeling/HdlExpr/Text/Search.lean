import HdlExpr.Text.Letter

/-!
# Ranked search

A query matches a candidate that contains its characters in order, up to letter case.  Matches are
ranked by a score: matching characters that are adjacent, that start the candidate, or that start
a word in it raise the score, and characters without a match lower it.  Positions and lengths are
counted in bytes.
-/

namespace HdlExpr.Text.Search

/-- The state of the scan of one candidate. -/
structure Scan where
  /-- The part of the query that is still to be matched. -/
  query : List Char
  /-- The best score found for the first character of `query`. -/
  best : Int := -1
  /-- The position at which a match was found last. -/
  position : Option Nat := none
  adjacency : Int := 0
  /-- The character before, and its position. -/
  last : Char := '\x00'
  lastPosition : Nat := 0
  /-- The positions settled so far: how many, and the latest. -/
  settled : Nat := 0
  latest : Nat := 0
  total : Int := 0

def isSeparator (c : Char) : Bool :=
  c == '/' || c == '-' || c == '_' || c == ' ' || c == '.' || c == '\\'

/-- The score of a match of `c` at `position`, before adjacency counts. -/
def placeScore (s : Scan) (c : Char) (position : Nat) : Int :=
  (if position = 0 then 10 else 0) + (if isLower s.last && isUpper c then 20 else 0) +
    (if position ≠ 0 && isSeparator s.last then 20 else 0)

/-- Tries `c` as a match of the next character of the query. -/
def tryMatch (s : Scan) (c : Char) (position : Nat) : Scan :=
  match s.query with
  | [] => s
  | q :: _ =>
    if sameLetter c q then
      let bonus :=
        if s.settled ≠ 0 && s.latest = s.lastPosition then s.adjacency * 2 + 5 else 0
      let score := placeScore s c position + bonus
      let s := { s with adjacency := s.adjacency + bonus }
      if s.best < score then { s with best := score, position := some position } else s
    else s

/-- Settles the best position when the text ends, or goes on with the character after it in the
query. -/
def settle (s : Scan) (next : Option Char) : Scan :=
  let ready := match next with
    | none => true
    | some c => sameLetter ((s.query[1]?).getD '\x00') c || c == '\x00'
  match s.position with
  | none => s
  | some position =>
    if ready then
      let lead : Int := if s.settled = 0 then max (-5 * position) (-15) else 0
      { s with
        total := s.total + s.best + lead
        settled := s.settled + 1
        latest := position
        best := -1
        query := s.query.drop 1 }
    else s

/-- Scans the characters from a position on.  A character zero counts as the end of a text, so that
the query may be used up before a character is left; there is no result then. -/
def scan : Scan → Nat → List Char → Option Scan
  | s, _, [] => some s
  | s, position, c :: rest =>
    if s.query.isEmpty then none
    else
      let s := settle (tryMatch s c position) rest.head?
      scan { s with last := c, lastPosition := position } (position + c.utf8Size) rest

/-- How a candidate fares: its score, if the query matches it. -/
def score? (query candidate : String) : Option (Option Int) :=
  (scan { query := query.toList } 0 candidate.toList).map fun s =>
    if s.settled = query.length then some (s.total + s.settled - candidate.utf8ByteSize) else none

/-- The candidates that match, best first, and of equal ones the later first.  There is no result
when the scan of a candidate has none. -/
def find? (query : String) (candidates : List String) : Option (List String) :=
  if query = "" then some []
  else do
    let scores ← candidates.mapM (score? query)
    let scored := (scores.zip candidates).filterMap fun (n, c) => n.map fun n => (n, c)
    some ((scored.reverse.mergeSort fun a b => b.1 ≤ a.1).map (·.2))

/-- The best match, empty when there is none. -/
def suggest? (name : String) (candidates : List String) : Option String :=
  (find? name candidates).map (·.headD "")

end HdlExpr.Text.Search
