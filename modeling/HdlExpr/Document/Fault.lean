import HdlExpr.Definition
import HdlExpr.Log.Record

/-!
# Faults of documents

Why a document, or an expression of it, cannot be had.  A fault has a title, may have a cause, and
is told in logs by attributes.
-/

namespace HdlExpr.Document

inductive Fault where
  /-- The input could not be opened, or not be read as a stream. -/
  | unreadable (cause : String) (stream : Bool)
  | malformed (bytes : Nat)
  | unknownTag (tag : String) (line : Int) (expression : String)
  | unsupportedValue (name type : String)
  | define (cause : Definition.Fault)
  | noSuchName (name file : String)
  | noRoot (name : String)
  | duplicateName (name : String)
  deriving DecidableEq, Inhabited

namespace Fault

def title : Fault → String
  | .unreadable _ _ => "failed to read document"
  | .malformed _ => "malformed document"
  | .unknownTag _ _ _ => "unknown syntax tag"
  | .unsupportedValue _ _ => "unsupported scope value"
  | .define _ => "define failed"
  | .noSuchName _ _ => "no such expression"
  | .noRoot _ => "expression has no root"
  | .duplicateName _ => "duplicate expression name"

/-- What lies behind a fault; of malformed text nothing more is told. -/
def cause? : Fault → Option String
  | .unreadable cause _ => some cause
  | .malformed _ => some ""
  | .define cause => some cause.message
  | _ => none

def message (f : Fault) : String :=
  match f.cause? with
  | none | some "" => f.title
  | some cause => f.title ++ ": " ++ cause

def details : Fault → List Log.Attr
  | .unreadable _ stream => if stream then [.text "source" "reader"] else []
  | .malformed bytes => [.int "bytes" bytes]
  | .unknownTag tag line expression =>
    [.text "tag" tag, .int "line" line, .text "expression" expression]
  | .unsupportedValue name type => [.text "name" name, .text "type" type]
  | .define _ => []
  | .noSuchName name file => [.text "name" name, .text "file" file]
  | .noRoot name => [.text "name" name]
  | .duplicateName name => [.text "name" name]

end Fault

/-- A fault with the path of the document that has it, if it comes from a file. -/
structure Failure where
  fault : Fault
  path : Option String := none
  deriving DecidableEq, Inhabited

namespace Failure

def message (f : Failure) : String := f.fault.message

def attrs (f : Failure) : List Log.Attr :=
  .text "error" f.fault.title :: (f.fault.cause?.map (Log.Attr.text "cause")).toList ++
    f.fault.details ++ (f.path.map (Log.Attr.text "path")).toList

end Failure

end HdlExpr.Document
