import HdlExpr.Fold
import HdlExpr.Proofs.Form
import HdlExpr.Proofs.Run

/-!
# Visits

Folding a node is folding some of its operands in order and then putting a result together.  Which
operands these are depends on the scope only through the names that it binds, so the nodes that an
evaluation visits can be listed beforehand.
-/

namespace HdlExpr

def Scope.binds (s : Scope) (name : String) : Bool := (s.lookup name).isSome

theorem Scope.lookup_congr {s s' : Scope} (h : s'.levels = s.levels) : s'.lookup = s.lookup := by
  funext name
  simp only [Scope.lookup, h]

theorem Scope.binds_congr {s s' : Scope} (h : s'.levels = s.levels) : s'.binds = s.binds := by
  funext name
  simp only [Scope.binds, Scope.lookup_congr h]

namespace Fold

open Run

/-! ## One node -/

/-- The operands that are folded for a shape, in order, when `bound` tells the names with a
cell. -/
def operands (bound : String → Bool) : Shape → List NodeId
  | .unary op operand =>
    match op.unaryOp? with
    | none | some .posedge | some .negedge => []
    | some _ => [operand]
  | .binary left op right =>
    match op.binaryOp?.bind Ir.Opcode.binary? with
    | none => [left]
    | some _ => [left, right]
  | .name ident => if bound ident.name then ident.select.bounds else []
  | .lvalue operand _ => [operand]
  | .empty | .events .. | .literal .. | .call _ | .concat .. => []

/-- The step that a shape takes on its operand, and whether its value is the one after it. -/
def step? : Shape → Option ((Value → Value) × Bool)
  | .unary op _ => op.unaryOp?.bind Ir.Opcode.step?
  | .lvalue _ (some op) => op.postOp?.bind Ir.Opcode.step?
  | _ => none

/-- What a select makes of a value and the values of its bounds. -/
def selected (v : Value) : Select → List Value → Value
  | .none, _ => v
  | .bit _, [i] =>
    match boundOf i with
    | some i => v.slice i.toInt i.toInt
    | none => .invalid
  | .part .., [hi, lo] =>
    match boundOf hi, boundOf lo with
    | some hi, some lo => v.slice hi.toInt lo.toInt
    | _, _ => .invalid
  | .indexed _ direction _, [base, width] =>
    match boundOf base, boundOf width with
    | some base, some width => indexedSlice v direction base width
    | _, _ => .invalid
  | _, _ => .invalid

/-- A loaded value as a name without a select gives it; only a text keeps its mark. -/
def readable (v : Value) : Value :=
  match v.datum with
  | .text _ => v
  | _ => v.plus

/-- What a name stands for, given the folded bounds of its select. -/
def named (scope : Scope) (ident : Ident) (xs : List Operand) : Operand :=
  match scope.lookup ident.name with
  | none => .absent
  | some slot =>
    match ident.select with
    | .none => ⟨readable (scope.load slot), some slot⟩
    | select => ⟨selected (scope.load slot) select (xs.map (·.value)), none⟩

/-- What a shape is folded to over a scope, given its folded operands. -/
def result (scope : Scope) : Shape → List Operand → Operand
  | .unary op _, [x] =>
    match op.unaryOp?.bind Ir.Opcode.step?, op.unaryOp?.bind Ir.Opcode.unary? with
    | some (step, _), _ => ⟨(step x.value).asRvalue, none⟩
    | none, some f => ⟨f x.value, none⟩
    | none, none => .absent
  | .binary .., [x] => ⟨x.value, none⟩
  | .binary _ op _, [x, y] =>
    match op.binaryOp?.bind Ir.Opcode.binary? with
    | none => .absent
    | some f => ⟨f x.value y.value, none⟩
  | .literal tag text, _ => ⟨(tag.literalValue? text).getD .invalid, none⟩
  | .name ident, xs => named scope ident xs
  | .lvalue _ none, [x] => x
  | .lvalue _ (some op), [x] =>
    match op.postOp?.bind Ir.Opcode.step? with
    | none => ⟨x.value, none⟩
    | some _ => ⟨x.value.asRvalue, none⟩
  | _, _ => .absent

/-- The state in which the operands of a form are folded: a name without a cell has been
reported. -/
def opened (c : Context) (form : Form) (s : State) : State :=
  match form.shape with
  | .name ident =>
    if s.scope.binds ident.name then s else (unresolved c form.site ident.name s).2
  | _ => s

/-- The scope after a stepped value has been written back to the cell of its operand. -/
def written (slot : Option Nat) (v : Value) (scope : Scope) : Scope :=
  match slot with
  | some slot => if v.isValid then scope.store slot v else scope
  | none => scope

/-- The scope after a shape has stepped its operand, if it does. -/
def stepped (shape : Shape) (xs : List Operand) (scope : Scope) : Scope :=
  match step? shape, xs with
  | some (step, _), [x] => written x.slot (step x.value) scope
  | _, _ => scope

@[simp] private theorem storeStep_apply (slot : Option Nat) (v : Value) (s : State) :
    storeStep slot v s = ((), { s with scope := written slot v s.scope }) := by
  cases slot with
  | none => rfl
  | some slot => by_cases h : v.isValid <;> simp [storeStep, written, h]

private theorem visitSelect_apply (recur : NodeId → Run Operand) (v : Value) (select : Select)
    (s : State) :
    visitSelect recur v select s =
      let r := select.bounds.mapM recur s
      (selected v select (r.1.map (·.value)), r.2) := by
  cases select with
  | none | bit _ | part _ _ | indexed _ _ _ => rfl

private theorem visitName_apply (c : Context) (recur : NodeId → Run Operand) (site : NodeId)
    (ident : Ident) (s : State) :
    visitName c recur site ident s =
      let r := (operands s.scope.binds (.name ident)).mapM recur
        (if s.scope.binds ident.name then s else (unresolved c site ident.name s).2)
      (named s.scope ident r.1, r.2) := by
  cases hl : s.scope.lookup ident.name with
  | none =>
    have hb : s.scope.binds ident.name = false := by simp [Scope.binds, hl]
    simp [visitName, hl, hb, operands, named]
  | some slot =>
    have hb : s.scope.binds ident.name = true := by simp [Scope.binds, hl]
    cases hs : ident.select with
    | none =>
      cases hd : (s.scope.load slot).datum <;>
        simp [visitName, hl, hs, hb, operands, named, Select.bounds, readable, hd]
    | bit _ | part _ _ | indexed _ _ _ =>
      simp [visitName, hl, hs, hb, operands, named, visitSelect_apply]

private theorem unaryOp?_mem {op : Tag} {code : Ir.Opcode} (h : op.unaryOp? = some code) :
    code ∈ [.preInc, .preDec, .minus, .plus, .not, .bitNeg, .posedge, .negedge] := by
  cases op <;> simp only [Tag.unaryOp?, Option.some.injEq, reduceCtorEq] at h <;>
    subst h <;> simp

private theorem visitUnary_apply (recur : NodeId → Run Operand) (op : Tag) (operand : NodeId)
    (bound : String → Bool) (scope : Scope) (s : State) :
    visitUnary recur op operand s =
      let r := (operands bound (.unary op operand)).mapM recur s
      (result scope (.unary op operand) r.1,
        { r.2 with scope := stepped (.unary op operand) r.1 r.2.scope }) := by
  cases hop : op.unaryOp? with
  | none => simp [visitUnary, operands, result, stepped, step?, hop]
  | some code =>
    have hc := unaryOp?_mem hop
    simp only [List.mem_cons, List.not_mem_nil, or_false] at hc
    rcases hc with rfl | rfl | rfl | rfl | rfl | rfl | rfl | rfl <;>
      simp [visitUnary, operands, result, stepped, step?, hop, Ir.Opcode.step?, Ir.Opcode.unary?]

private theorem visitBinary_apply (recur : NodeId → Run Operand) (left : NodeId) (op : Tag)
    (right : NodeId) (bound : String → Bool) (scope : Scope) (s : State) :
    visitBinary recur left op right s =
      let r := (operands bound (.binary left op right)).mapM recur s
      (result scope (.binary left op right) r.1, r.2) := by
  cases hf : op.binaryOp?.bind Ir.Opcode.binary? with
  | none => simp [visitBinary, operands, result, hf]
  | some f => simp [visitBinary, operands, result, hf]

private theorem visitLvalue_apply (recur : NodeId → Run Operand) (operand : NodeId)
    (op : Option Tag) (scope : Scope) (s : State) :
    visitLvalue recur operand op s =
      let r := [operand].mapM recur s
      (result scope (.lvalue operand op) r.1,
        { r.2 with scope := stepped (.lvalue operand op) r.1 r.2.scope }) := by
  cases op with
  | none => rfl
  | some op =>
    cases hf : op.postOp?.bind Ir.Opcode.step? with
    | none => simp [visitLvalue, result, stepped, step?, hf]
    | some f => simp [visitLvalue, result, stepped, step?, hf]

private theorem visit_apply (c : Context) (recur : NodeId → Run Operand) (form : Form)
    (s : State) :
    visit c recur form s =
      let r := (operands s.scope.binds form.shape).mapM recur (opened c form s)
      (result s.scope form.shape r.1,
        { r.2 with scope := stepped form.shape r.1 r.2.scope }) := by
  obtain ⟨node, site, shape⟩ := form
  cases shape with
  | empty | events | literal | call | concat => rfl
  | unary op operand => exact visitUnary_apply recur op operand s.scope.binds s.scope s
  | binary left op right => exact visitBinary_apply recur left op right s.scope.binds s.scope s
  | name ident => exact visitName_apply c recur site ident s
  | lvalue operand op => exact visitLvalue_apply recur operand op s.scope s

/-- The state after a form: its operand is stepped if it says so, and its value is reported. -/
def closed (c : Context) (form : Form) (scope : Scope) (xs : List Operand) (s : State) : State :=
  { s with
    scope := stepped form.shape xs s.scope
    reports := s.reports.push (.folded form.shape (c.tree.location form.site)
      (result scope form.shape xs).value) }

@[simp] private theorem fold_zero (c : Context) (n : NodeId) (s : State) :
    fold c 0 n s = (.absent, (warn c n s).2) := rfl

theorem fold_succ (c : Context) (budget : Nat) (n : NodeId) (s : State) :
    fold c (budget + 1) n s =
      let form := Form.decode c.tree n
      let r := (operands s.scope.binds form.shape).mapM (fold c budget) (opened c form s)
      (result s.scope form.shape r.1, closed c form s.scope r.1 r.2) := by
  simp only [fold, bind_apply, visit_apply]
  rfl

/-! ## Every node -/

theorem written_levels (slot : Option Nat) (v : Value) (scope : Scope) :
    (written slot v scope).levels = scope.levels := by
  cases slot with
  | none => rfl
  | some slot =>
    simp only [written]
    split <;> rfl

@[simp] theorem written_size (slot : Option Nat) (v : Value) (scope : Scope) :
    (written slot v scope).cells.size = scope.cells.size := by
  cases slot with
  | none => rfl
  | some slot =>
    simp only [written]
    split
    · simp [Scope.store]
    · rfl

@[simp] theorem unresolved_scope (c : Context) (site : NodeId) (name : String) (s : State) :
    (unresolved c site name s).2.scope = s.scope := by
  cases hm : c.mute <;> simp [unresolved, report, hm]

@[simp] theorem opened_scope (c : Context) (form : Form) (s : State) :
    (opened c form s).scope = s.scope := by
  unfold opened
  split
  · split
    · rfl
    · exact unresolved_scope c form.site _ s
  · rfl

@[simp] theorem warn_scope (c : Context) (n : NodeId) (s : State) :
    (warn c n s).2.scope = s.scope := by
  cases hw : s.warned <;> simp [warn, report, hw]

/-- What no store changes of a scope, folding does not change. -/
theorem fold_keeps {α : Type} {f : Scope → α}
    (hf : ∀ slot v scope, f (written slot v scope) = f scope) (c : Context) (budget : Nat)
    (n : NodeId) (s : State) : f (fold c budget n s).2.scope = f s.scope := by
  have hstepped (shape : Shape) (xs : List Operand) (scope : Scope) :
      f (stepped shape xs scope) = f scope := by
    unfold stepped
    split
    · exact hf _ _ _
    · rfl
  induction budget generalizing n s with
  | zero => rw [fold_zero, warn_scope]
  | succ budget ih =>
    rw [fold_succ]
    refine (hstepped _ _ _).trans ?_
    apply mapM_keeps fun s' : State => f s'.scope = f s.scope
    · intro m s' h
      rw [ih, h]
    · rw [opened_scope]

/-- Folding binds no name and unbinds none. -/
theorem fold_levels (c : Context) (budget : Nat) (n : NodeId) (s : State) :
    (fold c budget n s).2.scope.levels = s.scope.levels :=
  fold_keeps written_levels c budget n s

/-- Folding makes no cells. -/
@[simp] theorem fold_size (c : Context) (budget : Nat) (n : NodeId) (s : State) :
    (fold c budget n s).2.scope.cells.size = s.scope.cells.size :=
  fold_keeps (f := fun scope => scope.cells.size) written_size c budget n s

/-- A relation between a node, the state before it, its result and the state after it holds of
every run that starts with the names of `scope` when it holds of nodes that are cut off and passes
from operands to the node. -/
theorem fold_induction (c : Context) (scope : Scope)
    {P : Nat → NodeId → State → Operand → State → Prop}
    (cut : ∀ n s, s.scope.levels = scope.levels → P 0 n s .absent (warn c n s).2)
    (node : ∀ budget n s xs s', s.scope.levels = scope.levels →
      InTurn (P budget) (operands scope.binds (Form.decode c.tree n).shape)
        (opened c (Form.decode c.tree n) s) xs s' →
      P (budget + 1) n s (result s.scope (Form.decode c.tree n).shape xs)
        (closed c (Form.decode c.tree n) s.scope xs s'))
    (budget : Nat) (n : NodeId) (s : State) (hs : s.scope.levels = scope.levels) :
    P budget n s (fold c budget n s).1 (fold c budget n s).2 := by
  induction budget generalizing n s with
  | zero => exact cut n s hs
  | succ budget ih =>
    rw [fold_succ, Scope.binds_congr hs]
    refine node budget n s _ _ hs ?_
    apply mapM_inTurn fun s' : State => s'.scope.levels = scope.levels
    · intro m s' h
      rw [fold_levels, h]
    · exact ih
    · rw [opened_scope, hs]

/-! ## Visits -/

/-- A node that is folded, with how deep it may nest; one that may not nest at all is cut off. -/
structure Visit where
  budget : Nat
  node : NodeId
  deriving DecidableEq, Repr

def Visit.form (t : Tree) (k : Visit) : Form := Form.decode t k.node

/-- The nodes that folding visits, operands before the node that they belong to. -/
def visits (t : Tree) (bound : String → Bool) : Nat → NodeId → List Visit
  | 0, n => [⟨0, n⟩]
  | budget + 1, n =>
    (operands bound (Form.decode t n).shape).flatMap (visits t bound budget) ++ [⟨budget + 1, n⟩]

end Fold

end HdlExpr
