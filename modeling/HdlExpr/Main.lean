import HdlExpr.Cli.Run

/-!
# Command line

Runs the command line on the files of the machine.
-/

namespace HdlExpr.Machine

/-- Why an action on a file failed, in the words of the machine. -/
def reason : IO.Error → String
  | .noFileOrDirectory .. => "no such file or directory"
  | .permissionDenied .. => "permission denied"
  | .inappropriateType .. => "is a directory"
  | e => toString e

/-- The text of a file.  What can be opened and not be read is a directory. -/
def readText (path : String) : IO (Except Document.Fault String) := do
  match ← (IO.FS.Handle.mk path .read).toBaseIO with
  | .error e => return .error (.unreadable ("open " ++ path ++ ": " ++ reason e) false)
  | .ok handle =>
    match ← handle.readToEnd.toBaseIO with
    | .ok text => return .ok text
    | .error _ => return .error (.unreadable ("read " ++ path ++ ": is a directory") true)

def writeText (path text : String) : IO (Except String Unit) := do
  match ← (IO.FS.writeFile path text).toBaseIO with
  | .ok () => return .ok ()
  | .error e => return .error ("open " ++ path ++ ": " ++ reason e)

/-- Writes a file beside its place and moves it there. -/
def replaceText (path text : String) : IO (Except String Unit) := do
  let beside := path ++ "0"
  match ← writeText beside text with
  | .error e => return .error e
  | .ok () =>
    match ← (IO.FS.rename beside path).toBaseIO with
    | .ok () => return .ok ()
    | .error e => return .error ("rename " ++ beside ++ " " ++ path ++ ": " ++ reason e)

def host : Files.Host IO where
  read := readText
  isFile path := do
    match ← readText path with
    | .ok _ => return true
    | .error _ => return false
  isDirectory path := do
    match ← readText path with
    | .error (.unreadable _ true) => return true
    | _ => return false
  write := writeText
  replace := replaceText

def configDirectory (workingDirectory : String) : IO String := do
  let base := match ← IO.getEnv "XDG_CONFIG_HOME", ← IO.getEnv "HOME" with
    | some directory, _ => directory
    | none, some home => Files.join home ".config"
    | none, none => workingDirectory
  return Files.join base "svexpr"

def environment : IO Cli.Environment := do
  let workingDirectory := toString (← IO.currentDir)
  return {
    workingDirectory
    configDirectory := ← configDirectory workingDirectory
    searchPath := (← IO.getEnv "SVEXPR_PATH").getD ""
    key := fun text => toString (hash text) }

end HdlExpr.Machine

open HdlExpr in
def main (arguments : List String) : IO UInt32 := do
  let e ← Machine.environment
  IO.FS.createDirAll e.configDirectory
  let t ← Cli.run Machine.host e arguments
  IO.print t.output
  IO.eprint t.fullLog
  return if t.crashed then 2 else if t.failure.isSome then 1 else 0
