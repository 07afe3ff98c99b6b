import HdlExpr.Batch

/-!
# Failures of commands

Why a command line was not carried out, or not in full.
-/

namespace HdlExpr.Cli

inductive Failure where
  /-- The command line, or a setting of a configuration file, makes no sense. -/
  | invocation
  | configuration (path : String) (cause : Option String)
  /-- A document could not be loaded from a file, or lacks an expression. -/
  | load (failure : Document.Failure) (file : Option String)
  | define (cause : Definition.Fault) (file : String)
  | output (cause metrics : String)
  | configurationExists (file : String)
  | configurationUnwritable (cause file : String)
  /-- Nothing came of some documents of a batch, or of the whole batch. -/
  | batch (trouble : Batch.Trouble)

namespace Failure

def title : Failure → String
  | .invocation => "invalid command line"
  | .configuration path _ => path
  | .load _ _ => "load document"
  | .define _ _ => "apply define"
  | .output _ _ => "write output"
  | .configurationExists _ | .configurationUnwritable _ _ => "write configuration file"
  | .batch _ => "batch failed"

def cause? : Failure → Option String
  | .invocation => none
  | .configuration _ cause => cause
  | .load f _ => some f.message
  | .define cause _ => some cause.message
  | .output cause _ | .configurationUnwritable cause _ => some cause
  | .configurationExists _ => some "file exists (use --force to overwrite)"
  | .batch trouble => some trouble.message

def message (f : Failure) : String :=
  match f.cause? with
  | none => f.title
  | some cause => f.title ++ ": " ++ cause

def details : Failure → List Log.Attr
  | .load _ file => (file.map (Log.Attr.text "file")).toList
  | .define _ file | .configurationExists file | .configurationUnwritable _ file =>
    [.text "file" file]
  | .output _ metrics => [.text "metrics" metrics]
  | _ => []

def attrs (f : Failure) : List Log.Attr :=
  .text "error" f.title :: (f.cause?.map (Log.Attr.text "cause")).toList ++ f.details

end Failure

end HdlExpr.Cli
