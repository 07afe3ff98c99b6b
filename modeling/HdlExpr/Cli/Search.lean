import HdlExpr.Files.Host

/-!
# Search paths

Documents that are not found under their names are looked for in directories.
-/

namespace HdlExpr.Cli

/-- Drops what has been there before. -/
def firsts : List String → List String → List String
  | _, [] => []
  | seen, s :: rest => if seen.contains s then firsts seen rest else s :: firsts (s :: seen) rest

/-- The directories that may be searched: those of the last flag first, then those of the
environment.  Each text may hold several, with colons between them. -/
def candidates (flags : List String) (environment : String) : List String :=
  firsts [] ((flags.reverse ++ [environment]).flatMap (·.splitOn ":"))

variable {m : Type → Type} [Monad m]

def searchPath (host : Files.Host m) (flags : List String) (environment : String) :
    m (List String) :=
  (candidates flags environment).filterM host.isDirectory

def findIn (host : Files.Host m) (name : String) : List String → m (Option String)
  | [] => pure none
  | directory :: rest => do
    let path := Files.join directory name
    if ← host.isFile path then return some path else findIn host name rest

/-- The path of a document: its name if there is such a file or if it starts at the root, else the
path of the first file that is found, else its name again. -/
def locate (host : Files.Host m) (directories : List String) (name : String) : m String := do
  if (← host.isFile name) || Files.isAbsolute name then return name
  return (← findIn host name directories).getD name

end HdlExpr.Cli
