import HdlExpr.Fold
import HdlExpr.Ir.Node
import HdlExpr.Proofs.Run

/-!
# Meaning of lowered trees

What a tree of the intermediate representation means over a scope: a value, the writes of its
steps, and the names that nothing binds.  Operands are interpreted from left to right.  A missing
node is invalid, and so is an operation that lacks an operand, whatever its other operands do.
-/

namespace HdlExpr.Ir

/-- The value of a constant of a kind.  A single bit is the last character of its text. -/
def kindValue (kind content : String) : Value :=
  match kind with
  | "INT" | "HEX" | "BIN" | "OCT" => Literal.value content
  | "REAL" => Value.real (Numeral.real content)
  | "STRING" => Value.text content
  | "SCAL" => Value.scalar (if content.toList.getLast? = some '1' then 1 else 0)
  | _ => .invalid

/-- The value of a constant, whose kind stands in front of its first colon. -/
def constantValue (text : String) : Value :=
  let cs := text.toList
  kindValue (String.ofList (cs.takeWhile (· != ':')))
    (String.ofList ((cs.dropWhile (· != ':')).drop 1))

theorem constantValue_append {kind : String} (h : ':' ∉ kind.toList) (content : String) :
    constantValue (kind ++ ":" ++ content) = kindValue kind content := by
  have hk : ∀ c ∈ kind.toList, (c != ':') = true := by
    intro c hc
    simpa using ne_of_mem_of_not_mem hc h
  have hc : (kind ++ ":" ++ content).toList = kind.toList ++ ':' :: content.toList := by simp
  rw [constantValue, hc, List.takeWhile_append_of_pos hk, List.dropWhile_append_of_pos hk]
  simp

namespace Opcode

/-- Operations that have no value; their operands are not interpreted. -/
def isInert : Opcode → Bool
  | .posedge | .negedge | .concat | .multiConcat | .eventOr | .list => true
  | _ => false

/-- The operator of a code on the operands that there are. -/
def apply (op : Opcode) : List Value → Value
  | [v] =>
    match op.unary? with
    | some f => f v
    | none => .invalid
  | [v, w] =>
    match op.binary? with
    | some f => f v w
    | none => .invalid
  | _ => .invalid

end Opcode

namespace Meaning

/-- What changes while a tree is interpreted. -/
structure State where
  scope : Scope
  /-- The names that nothing bound, in the order in which they were met. -/
  unresolved : List String := []

abbrev Run := StateM State

/-- What is made of the value that a name is bound to; a name without a cell is noted and has no
value. -/
def withBinding (name : String) (body : Value → Run Value) : Run Value := do
  match (← get).scope.lookup name with
  | some slot => body ((← get).scope.load slot)
  | none =>
    modify fun s => { s with unresolved := s.unresolved ++ [name] }
    pure .invalid

/-- A value that is read is no longer assignable, unless it is a text. -/
def reading (v : Value) : Value :=
  match v.datum with
  | .text _ => v
  | _ => v.asRvalue

/-- The cell that a step writes to: that of an operand that is a reference. -/
def place? (scope : Scope) : List Node → Option Nat
  | [.ref r] => scope.lookup r.name
  | _ => none

/-- Steps an operand.  A valid result is written to the cell of the operand, if it has one, and the
value is the one after the step or the one before it. -/
def stepped (step : Value → Value) (after : Bool) (operands : List Node) : List Value → Run Value
  | [v] => do
    if let some slot := place? (← get).scope operands then
      if (step v).isValid then
        modify fun s => { s with scope := s.scope.store slot (step v) }
    pure (if after then step v else v).asRvalue
  | _ => pure .invalid

/-- The bits of a value between two bounds, which have to be integers. -/
def between (v hi lo : Value) : Value :=
  match Fold.boundOf hi, Fold.boundOf lo with
  | some hi, some lo => v.slice hi.toInt lo.toInt
  | _, _ => .invalid

/-- As many bits of a value as `width` says, up or down from `base`; both have to be integers. -/
def counted (v : Value) (direction : Direction) (base width : Value) : Value :=
  match Fold.boundOf base, Fold.boundOf width with
  | some base, some width =>
    if width.toInt < 1 then .invalid
    else if direction = .down then v.slice base.toInt (base - width + 1).toInt
    else v.slice (base + width - 1).toInt base.toInt
  | _, _ => .invalid

end Meaning

namespace Node

open Meaning

mutual

def meaning : Node → Meaning.Run Value
  | .operation _ _ op operands =>
    if op.isInert then pure .invalid
    else do
      let vs ← meanings operands
      match op.step? with
      | some (step, after) => stepped step after operands vs
      | none => pure (op.apply vs)
  | .constant _ _ text => pure (constantValue text)
  | .ref r => withBinding r.name fun v => pure (reading v)
  | .bitSelect _ _ name index => withBinding name fun v => do
    let i ← meaning? index
    pure (between v i i)
  | .partSelect _ (some object) _ left right => withBinding object.name fun v => do
    let hi ← meaning? left
    let lo ← meaning? right
    pure (between v hi lo)
  | .indexedSelect _ (some object) direction _ base width =>
    withBinding object.name fun v => do
      let base ← meaning? base
      let width ← meaning? width
      pure (counted v direction base width)
  | .partSelect _ none .. | .indexedSelect _ none .. | .call .. => pure .invalid

/-- The values of some nodes, from left to right. -/
def meanings : List Node → Meaning.Run (List Value)
  | [] => pure []
  | n :: rest => do
    let v ← meaning n
    let vs ← meanings rest
    pure (v :: vs)

def meaning? : Option Node → Meaning.Run Value
  | none => pure .invalid
  | some n => meaning n

end

open Run

theorem meaning_step {op : Opcode} {step : Value → Value} {after : Bool}
    (h : op.step? = some (step, after)) (id parent : Nat) (operands : List Node)
    (s : Meaning.State) :
    meaning (.operation id parent op operands) s =
      stepped step after operands (meanings operands s).1 (meanings operands s).2 := by
  have hi : op.isInert = false := by
    cases op <;> simp_all [Opcode.step?, Opcode.isInert]
  simp [meaning, hi, h]

theorem meaning_apply {op : Opcode} (hi : op.isInert = false) (hs : op.step? = none)
    (id parent : Nat) (operands : List Node) (s : Meaning.State) :
    meaning (.operation id parent op operands) s =
      (op.apply (meanings operands s).1, (meanings operands s).2) := by
  simp [meaning, hi, hs]

theorem meaning_inert {op : Opcode} (h : op.isInert = true) (id parent : Nat)
    (operands : List Node) (s : Meaning.State) :
    meaning (.operation id parent op operands) s = (.invalid, s) := by
  simp [meaning, h]

theorem meanings_append (ms ns : List Node) (s : Meaning.State) :
    meanings (ms ++ ns) s =
      let r := meanings ms s
      let q := meanings ns r.2
      (r.1 ++ q.1, q.2) := by
  induction ms generalizing s with
  | nil => rfl
  | cons m ms ih => simp [meanings, ih]

theorem meanings_toList (m : Option Node) (s : Meaning.State) :
    meanings m.toList s =
      let r := meaning? m s
      (m.toList.map fun _ => r.1, r.2) := by
  cases m with
  | none => rfl
  | some m => simp [meanings, meaning?]

end Node

end HdlExpr.Ir
