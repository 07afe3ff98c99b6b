import HdlExpr.Definition.Meaning
import HdlExpr.Definition.Typing
import HdlExpr.Scope.Basic
import HdlExpr.Text.Quoted

/-!
# Definitions

A definition `NAME=FORMULA` binds a name in the innermost level of a scope to the value of a formula
over the bindings that are visible.
-/

namespace HdlExpr

/-- A name and the text of its formula. -/
structure Definition where
  name : String
  source : String
  deriving DecidableEq

namespace Definition

/-- Why a definition binds nothing. -/
inductive Fault where
  | missingEquals (text : String)
  | emptyName (text : String)
  | emptySource (text : String)
  | illFormed (name : String)
  | noResult (name : String)
  | unsupported (name type : String)
  deriving DecidableEq, Inhabited

def Fault.message : Fault → String
  | .missingEquals text => "define " ++ Text.quote text ++ ": missing '='"
  | .emptyName text => "define " ++ Text.quote text ++ ": empty name"
  | .emptySource text => "define " ++ Text.quote text ++ ": empty expression"
  | .illFormed name => "compile define " ++ name
  | .noResult name => "run define " ++ name
  | .unsupported name type => "define " ++ name ++ ": unsupported result type " ++ type

/-- Splits `NAME=FORMULA` at its first `=`; blanks around both parts do not count. -/
def ofText (text : String) : Except Fault Definition :=
  let before := text.toList.takeWhile (· != '=')
  match text.toList.drop before.length with
  | [] => .error (.missingEquals text)
  | _ :: after =>
    match Text.trim before, Text.trim after with
    | [], _ => .error (.emptyName text)
    | _, [] => .error (.emptySource text)
    | name, source => .ok ⟨String.ofList name, String.ofList source⟩

/-- The value of a definition's formula over the given bindings. -/
def value (d : Definition) (bindings : List (String × Value)) : Except Fault Value :=
  let operands := bindings.map fun (name, v) => (name, Operand.ofValue v)
  let formula := do
    let f ← Formula.ofText d.source
    let _ ← f.type fun s => (operands.lookup s).map Ty.ofOperand
    f.reduce
  match formula with
  | none => .error (.illFormed d.name)
  | some f =>
    match f.result? operands with
    | none => .error (.noResult d.name)
    | some v =>
      match v.value? with
      | some v => .ok v
      | none => .error (.unsupported d.name v.typeName)

end Definition

/-- What gives definitions their values over bindings. -/
abbrev Definition.Calculus := Definition → List (String × Value) → Except Definition.Fault Value

namespace Scope

def define (s : Scope) (d : Definition) (value : Definition.Calculus := Definition.value) :
    Except Definition.Fault (Value × Scope) :=
  (value d s.validBindings).map fun v => (v, s.set d.name v)

/-- Makes definitions in order, so that later ones see earlier ones.  Those before a fault
stay. -/
def defineAll (s : Scope) (texts : List String)
    (value : Definition.Calculus := Definition.value) : Scope × Option Definition.Fault :=
  match texts with
  | [] => (s, none)
  | text :: rest =>
    match Definition.ofText text with
    | .error fault => (s, some fault)
    | .ok d =>
      match s.define d value with
      | .error fault => (s, some fault)
      | .ok (_, s) => s.defineAll rest value

end Scope

end HdlExpr
