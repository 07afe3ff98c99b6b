import HdlExpr.Document.Fault
import HdlExpr.Files.Path

/-!
# Files

What the command line asks of the place where files are kept, and such a place in memory.
-/

namespace HdlExpr.Files

/-- Access to files. -/
structure Host (m : Type → Type) where
  /-- The text of a file, or why a document cannot be read from it. -/
  read : String → m (Except Document.Fault String)
  isFile : String → m Bool
  isDirectory : String → m Bool
  /-- Writes a file, or tells why it cannot be written. -/
  write : String → String → m (Except String Unit)
  /-- Writes a file under a name of its own first and then puts it in place. -/
  replace : String → String → m (Except String Unit)

/-- Files in memory: a text at each path, and nothing where a directory is.  Paths are clean and
start at the root; a directory is also where a file lies below it. -/
structure Store where
  workingDirectory : String
  entries : List (String × Option String) := []

/-- Why a path leads nowhere. -/
inductive Obstacle where
  | missing
  | notDirectory
  | isDirectory
  | longName
  | badName
  deriving DecidableEq

def Obstacle.message : Obstacle → String
  | .missing => "no such file or directory"
  | .notDirectory => "not a directory"
  | .isDirectory => "is a directory"
  | .longName => "file name too long"
  | .badName => "invalid argument"

namespace Store

def textAt (s : Store) (place : String) : Option String := (s.entries.lookup place).join

def isFileAt (s : Store) (place : String) : Bool := (s.textAt place).isSome

def isDirectoryAt (s : Store) (place : String) : Bool :=
  place == "/" || place == s.workingDirectory || isBelow place s.workingDirectory ||
    s.entries.any fun (path, text) =>
      (text.isNone && path == place) || isBelow place path

/-- The place one part of a path further on; only a directory leads on. -/
def step (s : Store) (place part : String) : Except Obstacle String :=
  if s.isFileAt place then .error .notDirectory
  else if !s.isDirectoryAt place then .error .missing
  else if 255 < part.utf8ByteSize then .error .longName
  else if part = "" ∨ part = "." then .ok place
  else if part = ".." then .ok (directory place)
  else .ok (join place part)

/-- The place that a path leads to, where there need not be anything yet. -/
def resolve (s : Store) (path : String) : Except Obstacle String :=
  if path = "" then .error .missing
  else if path.toList.contains '\x00' then .error .badName
  else if 4096 ≤ path.utf8ByteSize then .error .longName
  else (parts path).foldlM s.step (if isAbsolute path then "/" else s.workingDirectory)

def leadsTo (s : Store) (kind : Store → String → Bool) (path : String) : Bool :=
  match s.resolve path with
  | .ok place => kind s place
  | .error _ => false

def unopened (path : String) (o : Obstacle) : String := "open " ++ path ++ ": " ++ o.message

def read (s : Store) (path : String) : Except Document.Fault String :=
  match s.resolve path with
  | .error o => .error (.unreadable (unopened path o) false)
  | .ok place =>
    match s.textAt place with
    | some text => .ok text
    | none =>
      if s.isDirectoryAt place then
        .error (.unreadable ("read " ++ path ++ ": " ++ Obstacle.isDirectory.message) true)
      else .error (.unreadable (unopened path .missing) false)

/-- Puts a text at a path; there must be a directory to hold it. -/
def write (s : Store) (path text : String) : Except String Store :=
  match s.resolve path with
  | .error o => .error (unopened path o)
  | .ok place =>
    if s.isDirectoryAt place then .error (unopened path .isDirectory)
    else .ok { s with entries := (place, some text) :: s.entries.filter (·.1 != place) }

def replace (s : Store) (path text : String) : Except String Store :=
  let beside := path ++ "0"
  match s.resolve beside with
  | .error o => .error (unopened beside o)
  | .ok _ =>
    if s.leadsTo isDirectoryAt path then
      .error ("rename " ++ beside ++ " " ++ path ++ ": file exists")
    else s.write path text

/-- Changes a store unless that fails. -/
def attempt (f : Store → Except String Store) : StateM Store (Except String Unit) := fun s =>
  match f s with
  | .ok s => (.ok (), s)
  | .error e => (.error e, s)

def host : Host (StateM Store) where
  read path := do return (← get).read path
  isFile path := do return (← get).leadsTo isFileAt path
  isDirectory path := do return (← get).leadsTo isDirectoryAt path
  write path text := attempt (·.write path text)
  replace path text := attempt (·.replace path text)

end Store

end HdlExpr.Files
