import HdlExpr.Proofs.Depth
import HdlExpr.Proofs.Fold.Strictness
import HdlExpr.Proofs.Value.Inverses

/-!
# Nested negations and complements

What folding gives keeps the invariant of values when the cells do, and an integer among it carries
no mark.  So an even number of negations around an operand that folds to an integer cancels, and so
does an even number of complements.
-/

namespace HdlExpr

theorem Tag.literalValue?_settled {tag : Tag} {text : String} {v : Value}
    (h : tag.literalValue? text = some v) : v.WellFormed ∧ v.lvalue = false := by
  unfold Tag.literalValue? at h
  split at h
  · obtain rfl := Option.some.inj h
    unfold Literal.value
    split
    · exact ⟨Value.wellFormed_signed _, rfl⟩
    · exact ⟨Value.wellFormed_unsigned _, rfl⟩
    · exact ⟨Value.wellFormed_unsigned _, rfl⟩
  · obtain rfl := Option.some.inj h
    exact ⟨Value.wellFormed_real _, rfl⟩
  · obtain rfl := Option.some.inj h
    exact ⟨Value.wellFormed_text _, rfl⟩
  · obtain rfl := Option.some.inj h
    exact ⟨Value.wellFormed_unsigned _, rfl⟩
  · obtain ⟨bit, _, rfl⟩ := Option.map_eq_some_iff.mp h
    exact ⟨Value.wellFormed_sized _ _, Value.sized_lvalue _ _⟩

/-- A scope whose cells keep the invariant of values. -/
def Scope.WellFormed (s : Scope) : Prop := ∀ v ∈ s.cells, v.WellFormed

namespace Scope.WellFormed

variable {s : Scope} (h : s.WellFormed)

include h

private theorem load (slot : Nat) : (s.load slot).WellFormed := by
  cases hs : s.cells[slot]? with
  | none =>
    rw [Scope.load, hs]
    exact Value.wellFormed_invalid
  | some v =>
    rw [Scope.load, hs]
    exact h v (Array.mem_of_getElem? hs)

private theorem store (slot : Nat) {v : Value} (hv : v.WellFormed) :
    (s.store slot v).WellFormed := by
  intro w hw
  rcases Array.mem_or_eq_of_mem_setIfInBounds hw with hold | rfl
  · exact h w hold
  · exact hv

end Scope.WellFormed

namespace Fold

open Run Value

/-! ## Values that folding gives -/

/-- A value that keeps the invariant and that, if it is an integer, carries no mark. -/
structure Settled (v : Value) : Prop where
  wellFormed : v.WellFormed
  unmarked : v.kind = .integer → v.lvalue = false

private theorem settled_of_unmarked {v : Value} (h : v.WellFormed) (hm : v.lvalue = false) :
    Settled v :=
  ⟨h, fun _ => hm⟩

private theorem settled_invalid : Settled invalid := settled_of_unmarked wellFormed_invalid rfl

private theorem settled_slice (v : Value) (hi lo : Int) : Settled (v.slice hi lo) :=
  settled_of_unmarked (wellFormed_slice v hi lo) (slice_lvalue v hi lo)

private theorem settled_unary {op : Ir.Opcode} {f : Value → Value} (hf : op.unary? = some f)
    {v : Value} (h : v.WellFormed) : Settled (f v) :=
  settled_of_unmarked (h.unary hf) (unary_lvalue hf v)

private theorem settled_readable {v : Value} (h : v.WellFormed) : Settled (readable v) := by
  unfold readable
  split
  case h_1 s hs =>
    refine ⟨h, fun hk => ?_⟩
    simp [kind, hs] at hk
  case h_2 =>
    have hplus : Ir.Opcode.plus.unary? = some plus := rfl
    exact settled_unary hplus h

private theorem settled_selected (v : Value) {select : Select} (hs : select ≠ .none)
    (vs : List Value) : Settled (selected v select vs) := by
  unfold selected
  split
  · exact absurd rfl hs
  · split
    · exact settled_slice v _ _
    · exact settled_invalid
  · split
    · exact settled_slice v _ _
    · exact settled_invalid
  · split
    · unfold indexedSlice
      split
      · exact settled_invalid
      · split
        · exact settled_slice v _ _
        · exact settled_slice v _ _
        · exact settled_invalid
    · exact settled_invalid
  · exact settled_invalid

private theorem settled_named {scope : Scope} (hs : scope.WellFormed) (ident : Ident)
    (xs : List Operand) : Settled (named scope ident xs).value := by
  unfold named
  split
  · exact settled_invalid
  · split
    · exact settled_readable (hs.load _)
    · rename_i hsel
      exact settled_selected _ hsel _

private theorem settled_result {scope : Scope} (hs : scope.WellFormed) (shape : Shape)
    {xs : List Operand}
    (hx : ∀ x ∈ xs, Settled x.value) : Settled (result scope shape xs).value := by
  unfold result
  split
  case h_1 op _ x =>
    have hw := (hx x (by simp)).wellFormed
    split
    case h_1 step after hstep =>
      obtain ⟨code, _, hf⟩ := Option.bind_eq_some_iff.mp hstep
      obtain ⟨up, rfl⟩ := Ir.Opcode.step?_eq_some hf
      exact settled_of_unmarked (hw.step up) rfl
    case h_2 f _ hf =>
      obtain ⟨code, _, hf⟩ := Option.bind_eq_some_iff.mp hf
      exact settled_unary hf hw
    case h_3 => exact settled_invalid
  case h_2 x => exact hx x (by simp)
  case h_3 op _ x y =>
    split
    case h_1 => exact settled_invalid
    case h_2 f hf =>
      obtain ⟨code, _, hf⟩ := Option.bind_eq_some_iff.mp hf
      have hxw := (hx x (by simp)).wellFormed
      have hyw := (hx y (by simp)).wellFormed
      exact settled_of_unmarked (hxw.binary hf hyw) (binary_lvalue hf _ _)
  case h_4 tag text =>
    cases hv : tag.literalValue? text with
    | none => exact settled_invalid
    | some v =>
      obtain ⟨hw, hm⟩ := Tag.literalValue?_settled hv
      exact settled_of_unmarked hw hm
  case h_5 ident => exact settled_named hs ident xs
  case h_6 x => exact hx x (by simp)
  case h_7 op x =>
    have hset := hx x (by simp)
    split
    · exact hset
    · exact settled_of_unmarked hset.wellFormed rfl
  case h_8 => exact settled_invalid

/-- A shape that steps moves its operand up or down by one. -/
theorem step?_eq_some {shape : Shape} {f : Value → Value} {after : Bool}
    (h : step? shape = some (f, after)) : ∃ up, f = Value.step up := by
  unfold step? at h
  split at h
  · obtain ⟨code, _, hf⟩ := Option.bind_eq_some_iff.mp h
    exact Ir.Opcode.step?_eq_some hf
  · obtain ⟨code, _, hf⟩ := Option.bind_eq_some_iff.mp h
    exact Ir.Opcode.step?_eq_some hf
  · cases h

private theorem wellFormed_stepped {scope : Scope} (hs : scope.WellFormed) (shape : Shape)
    {xs : List Operand} (hx : ∀ x ∈ xs, Settled x.value) :
    (stepped shape xs scope).WellFormed := by
  unfold stepped
  split
  case h_1 step _ x hstep =>
    obtain ⟨up, rfl⟩ := step?_eq_some hstep
    have hw := (hx x (by simp)).wellFormed.step up
    unfold written
    split
    · split
      · exact hs.store _ hw
      · exact hs
    · exact hs
  case h_2 => exact hs

/-- From one state to another the cells kept the invariant, and the values given are settled. -/
def Settles (s : State) (xs : List Operand) (s' : State) : Prop :=
  s.scope.WellFormed → (∀ x ∈ xs, Settled x.value) ∧ s'.scope.WellFormed

private theorem inTurn_settles {ns : List NodeId} {s s' : State} {xs : List Operand}
    (h : InTurn (fun _ s x s' => Settles s [x] s') ns s xs s') : Settles s xs s' := by
  induction h with
  | nil s =>
    intro hs
    exact ⟨by simp, hs⟩
  | cons first _ ih =>
    intro hs
    obtain ⟨hx, hs₁⟩ := first hs
    obtain ⟨hxs, hs₂⟩ := ih hs₁
    exact ⟨List.forall_mem_cons.mpr ⟨hx _ (by simp), hxs⟩, hs₂⟩

private theorem fold_settles (c : Context) (budget : Nat) (n : NodeId) (s : State) :
    Settles s [(fold c budget n s).1] (fold c budget n s).2 := by
  apply fold_induction c s.scope (P := fun _ _ s x s' => Settles s [x] s') _ _ budget n s rfl
  · intro n s _ hs
    rw [warn_scope]
    exact ⟨by simpa [Operand.absent] using settled_invalid, hs⟩
  · intro budget n s xs s' _ h hs
    obtain ⟨hx, hs'⟩ := inTurn_settles h (by rwa [opened_scope])
    exact ⟨by simpa using settled_result hs _ hx, wellFormed_stepped hs' _ hx⟩

/-- A valid value does not change when nodes may nest deeper. -/
theorem fold_deeper (t : Tree) (mute : Bool) (limit limit' : Nat) {budget budget' : Nat}
    (hle : budget ≤ budget') (n : NodeId) (scope : Scope)
    (h : (fold ⟨t, mute, limit⟩ budget n { scope }).1.value.isValid = true) :
    fold ⟨t, mute, limit'⟩ budget' n { scope } = fold ⟨t, mute, limit⟩ budget n { scope } := by
  apply (fold_truncates t mute limit limit' hle n).same
  obtain ⟨new, _, _, hvalid⟩ := fold_reported ⟨t, mute, limit⟩ scope budget n { scope } rfl
  have hbudgets := (succeeds_all (hvalid h)).2
  have hwarned := (fold_noticed ⟨t, mute, limit⟩ scope budget n { scope } rfl).1
  refine hwarned.trans ?_
  simpa using hbudgets

/-! ## Nested operators -/

/-- From the first node `count` operators `op`, one inside the other, lead to the second. -/
inductive Nested (t : Tree) (op : Tag) : Nat → NodeId → NodeId → Prop
  | here (n : NodeId) : Nested t op 0 n n
  | inside {count : Nat} {n inner m : NodeId} (shape : (Form.decode t n).shape = .unary op inner)
      (rest : Nested t op count inner m) : Nested t op (count + 1) n m

/-- What an operator without effect makes of a value. -/
def applied? (op : Tag) : Option (Value → Value) := op.unaryOp?.bind Ir.Opcode.unary?

private theorem fold_unary (c : Context) (budget : Nat) {n inner : NodeId} {op : Tag}
    {f : Value → Value}
    (hshape : (Form.decode c.tree n).shape = .unary op inner) (hf : applied? op = some f)
    (s : State) :
    (fold c (budget + 1) n s).1.value = f (fold c budget inner s).1.value := by
  obtain ⟨code, hcode, hunary⟩ := Option.bind_eq_some_iff.mp hf
  have hoperands : operands s.scope.binds (.unary op inner) = [inner] := by
    simp only [operands, hcode]
    cases code <;> simp_all [Ir.Opcode.unary?]
  have hstep : op.unaryOp?.bind Ir.Opcode.step? = none := by
    rw [hcode, Option.bind_some]
    cases code <;> simp_all [Ir.Opcode.unary?, Ir.Opcode.step?]
  have hopened : opened c (Form.decode c.tree n) s = s := by
    rw [opened, hshape]
  rw [applied?] at hf
  simp only [fold_succ, hshape, hoperands, hopened]
  simp [result, hstep, hf]

private theorem fold_nested (c : Context) (budget : Nat) {op : Tag} {f : Value → Value}
    (hf : applied? op = some f) {count : Nat} {n m : NodeId} (h : Nested c.tree op count n m)
    (s : State) :
    (fold c (budget + count) n s).1.value = f^[count] (fold c budget m s).1.value := by
  induction h with
  | here n => rfl
  | inside shape _ ih =>
    rw [← Nat.add_assoc, fold_unary c _ shape hf, ih, Function.iterate_succ_apply']

theorem Settled.undone {v : Value} (h : Settled v) (hk : v.kind = .integer) {op : Tag}
    (hop : op ∈ [Tag.unaryMinus, .unaryTilda]) : ∃ f, applied? op = some f ∧ f (f v) = v := by
  obtain ⟨i, hi⟩ := kind_eq_integer_iff.mp hk
  have hplus : v.plus = v := by
    rw [plus_integer hi]
    cases v
    cases hi
    exact congrArg _ (h.unmarked rfl).symm
  simp only [List.mem_cons, List.not_mem_nil, or_false] at hop
  rcases hop with rfl | rfl
  · exact ⟨minus, rfl, (minus_minus hi (h.wellFormed i hi)).trans hplus⟩
  · exact ⟨complement, rfl, (complement_complement hi (h.wellFormed i hi)).trans hplus⟩

private theorem isValid_of_kind {v : Value} (h : v.kind = .integer) : v.isValid = true := by
  obtain ⟨i, hi⟩ := kind_eq_integer_iff.mp h
  simp [isValid, hi]

/-- Negation and complement undo themselves, the complement is the negation stepped down, and steps
up and down undo each other and keep everything but the bits, at every width.  Hence an even number
of negations around an operand that folds to an integer gives the value of the operand, and so does
an even number of complements, when the limit leaves room for them. -/
theorem negations_cancel :
    (∀ v : Value, v.WellFormed → v.kind = .integer →
      v.minus.minus = v.plus ∧ v.complement.complement = v.plus ∧
      v.complement = v.minus.decrement ∧
      v.increment.decrement = v ∧ v.decrement.increment = v ∧
      ∀ w ∈ [v.increment, v.decrement],
        w.kind = v.kind ∧ w.width = v.width ∧ w.isSigned = v.isSigned ∧ w.lvalue = v.lvalue) ∧
    ∀ (t : Tree) (mute : Bool) (scope : Scope), scope.WellFormed →
      ∀ op ∈ [Tag.unaryMinus, .unaryTilda], ∀ (k : Nat) (n m : NodeId), Nested t op (2 * k) n m →
        ∀ depth limit : Nat, depth + 2 * k ≤ limit →
          let v := (evaluate ⟨t, mute, depth⟩ m scope).value
          v.kind = .integer →
            (evaluate ⟨t, mute, limit⟩ m scope).value = v ∧
            (evaluate ⟨t, mute, limit⟩ n scope).value = v := by
  constructor
  · intro v hv hk
    obtain ⟨i, hi⟩ := kind_eq_integer_iff.mp hk
    have hw := hv i hi
    refine ⟨minus_minus hi hw, complement_complement hi hw, complement_eq_decrement hi hw,
      step_step hi hw true, step_step hi hw false, ?_⟩
    intro w hmem
    simp only [List.mem_cons, List.not_mem_nil, or_false] at hmem
    rcases hmem with rfl | rfl
    · exact step_keeps hi hw true
    · exact step_keeps hi hw false
  · intro t mute scope hs op hop k n m hnested depth limit hle v hk
    have hsettled : Settled v :=
      (fold_settles ⟨t, mute, depth⟩ depth m { scope } hs).1 _ (by simp)
    obtain ⟨f, hf, hundone⟩ := hsettled.undone hk hop
    have hvalid := isValid_of_kind hk
    constructor
    · have hsame := fold_deeper t mute depth limit (by omega : depth ≤ limit) m scope hvalid
      exact congrArg (·.1.value) hsame
    · -- The operand is folded with what the operators leave of the limit.
      obtain ⟨budget, rfl⟩ : ∃ budget, limit = budget + 2 * k := ⟨limit - 2 * k, by omega⟩
      have hsame := fold_deeper t mute depth (budget + 2 * k) (by omega : depth ≤ budget) m scope
        hvalid
      have hvalue := fold_nested ⟨t, mute, budget + 2 * k⟩ budget hf hnested { scope }
      have hv : (fold ⟨t, mute, budget + 2 * k⟩ budget m { scope }).1.value = v :=
        congrArg (·.1.value) hsame
      rw [hv, Function.iterate_mul, Function.iterate_fixed hundone] at hvalue
      exact hvalue

/-- `~~~~x`, with node 3 for `x` and node 11 for the whole. -/
def complements : Tree :=
  let build : Tree.Build NodeId := do
    let x ← Tree.Build.ident ["x"]
    let once ← Tree.Build.unary .unaryTilda x
    let twice ← Tree.Build.unary .unaryTilda once
    let thrice ← Tree.Build.unary .unaryTilda twice
    Tree.Build.unary .unaryTilda thrice
  (build ⟨"a.sv", #[]⟩).2

private theorem complements_nested : Nested complements .unaryTilda (2 * 2) 11 3 := by
  have h11 : (Form.decode complements 11).shape = .unary .unaryTilda 9 := by decide +kernel
  have h9 : (Form.decode complements 9).shape = .unary .unaryTilda 7 := by decide +kernel
  have h7 : (Form.decode complements 7).shape = .unary .unaryTilda 5 := by decide +kernel
  have h5 : (Form.decode complements 5).shape = .unary .unaryTilda 3 := by decide +kernel
  exact .inside h11 (.inside h9 (.inside h7 (.inside h5 (.here 3))))

/-- `x` is a nibble with only its highest bit set. -/
def highBit : Scope := Scope.empty.enter.set "x" (.sized 8 4)

private theorem highBit_wellFormed : highBit.WellFormed := by
  intro v hv
  have hcells : highBit.cells = #[.sized 8 4] := rfl
  simp only [hcells, List.mem_toArray, List.mem_singleton] at hv
  subst hv
  exact wellFormed_sized 8 4

theorem negations_cancel_nibble :
    let value (limit : Nat) (n : NodeId) := (evaluate ⟨complements, false, limit⟩ n highBit).value
    (highBit.WellFormed ∧ Nested complements .unaryTilda (2 * 2) 11 3 ∧
      (value 1 3).kind = .integer ∧ (value 1 3).width = 4 ∧ (value 1 3).toWord = 8) ∧
    value 5 11 = value 1 3 ∧ (value 4 11).isValid = false ∧
    (sized 15 4).asLvalue.increment.decrement = (sized 15 4).asLvalue := by
  intro value
  have hkind : (value 1 3).kind = .integer := by decide +kernel
  have hvalue := negations_cancel.2 complements false highBit highBit_wellFormed .unaryTilda
    (by simp) 2 11 3 complements_nested 1 5 (by decide) hkind
  have hstep := negations_cancel.1 (sized 15 4).asLvalue (wellFormed_sized 15 4) rfl
  exact ⟨⟨highBit_wellFormed, complements_nested, hkind, by decide +kernel, by decide +kernel⟩,
    hvalue.2, by decide +kernel, hstep.2.2.2.1⟩

end Fold

end HdlExpr
