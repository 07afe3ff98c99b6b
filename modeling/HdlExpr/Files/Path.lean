/-!
# Paths

Paths are texts with `/` between their parts.
-/

namespace HdlExpr.Files

def isAbsolute (path : String) : Bool := path.startsWith "/"

def parts (path : String) : List String := path.splitOn "/"

/-- Adds a part to those before it, which are in reverse.  A step upwards removes the part before
it; at the root it goes nowhere. -/
def addPart (absolute : Bool) (done : List String) (part : String) : List String :=
  if part = "" ∨ part = "." then done
  else if part = ".." then
    match done with
    | last :: before => if last = ".." then ".." :: done else before
    | [] => if absolute then [] else [".."]
  else part :: done

/-- The shortest path to the same place. -/
def clean (path : String) : String :=
  let absolute := isAbsolute path
  let kept := "/".intercalate ((parts path).foldl (addPart absolute) []).reverse
  if absolute then "/" ++ kept else if kept = "" then "." else kept

def join (directory path : String) : String :=
  if directory ≠ "" then clean (directory ++ "/" ++ path)
  else if path ≠ "" then clean path
  else ""

/-- A path that starts at the root, for one that starts at a working directory. -/
def absolute (workingDirectory path : String) : String :=
  if isAbsolute path then path else join workingDirectory path

def directory (path : String) : String :=
  let before := (parts path).dropLast
  clean (if isAbsolute path then "/" ++ "/".intercalate before else "/".intercalate before)

/-- Whether a clean path leads through another. -/
def isBelow (directory path : String) : Bool := path.startsWith (directory ++ "/")

end HdlExpr.Files
