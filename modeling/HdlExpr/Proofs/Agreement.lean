import HdlExpr.Lower
import HdlExpr.Proofs.Fold.Visits
import HdlExpr.Proofs.Form
import HdlExpr.Proofs.Ir.Meaning
import HdlExpr.Proofs.Value.Strictness
import HdlExpr.Tree.Build

/-!
# Folding and lowering agree

Folding an expression does what its lowered tree means: it gives the same value, makes the same
writes and meets the same unresolved names in the same order.  Five shapes say more to one engine
than to the other and have to be kept out.
-/

namespace HdlExpr

/-- Shapes that lowering hands on as folding sees them.  A null becomes a signed zero, a single bit
keeps only its text, two operands without an operator become an operation without a value, a lone
event becomes what it is about, and a select without a direction counts down. -/
def Shape.isCarried : Shape → Bool
  | .literal tag text =>
    match tag.scalarBit? with
    | some bit => (text.toList.getLast? == some '1') == bit
    | none => tag != .nullKeyword
  | .binary _ op _ => op.binaryOp?.isSome
  | .events _ rest => !rest.isEmpty
  | .name ident =>
    match ident.select with
    | .indexed _ direction _ => direction.direction?.isSome
    | _ => true
  | _ => true

namespace Agreement

open Ir Ir.Node Ir.Meaning Run

/-! ## Literals and operators -/

private theorem constantValue_literal {tag : Tag} {text : String}
    (h : (Shape.literal tag text).isCarried = true) :
    (tag.literalText? text).map constantValue = tag.literalValue? text := by
  have kinds : ∀ k : Literal.Kind, ':' ∉ k.name.toList ∧
      kindValue k.name text = Literal.value text := by
    intro k
    cases k <;> simp [Literal.Kind.name, kindValue]
  cases hb : tag.scalarBit? with
  | some bit =>
    have hs : tag.literalText? text = some ("SCAL" ++ ":" ++ text) ∧
        tag.literalValue? text = some (Value.scalar (if bit then 1 else 0)) := by
      cases tag <;> simp_all [Tag.scalarBit?, Tag.literalText?, Tag.literalValue?]
    simp only [Shape.isCarried, hb, beq_iff_eq] at h
    rw [hs.1, hs.2, Option.map_some, constantValue_append (by simp)]
    subst h
    simp [kindValue]
  | none =>
    simp only [Shape.isCarried, hb, bne_iff_ne, ne_eq] at h
    unfold Tag.literalText? Tag.literalValue?
    split
    · rw [Option.map_some, constantValue_append (kinds _).1, (kinds _).2]
    · have hr : "REAL:" ++ text = "REAL" ++ ":" ++ text := by simp
      rw [Option.map_some, hr, constantValue_append (by simp)]
      rfl
    · have hs : "STRING:" ++ Literal.unquote text = "STRING" ++ ":" ++ Literal.unquote text := by
        simp
      rw [Option.map_some, hs, constantValue_append (by simp)]
      rfl
    · exact absurd rfl h
    · simp [hb]

/-- An operator between operands stands for an operation with a value. -/
theorem binaryOp?_eq_some {op : Tag} {code : Opcode} (h : op.binaryOp? = some code) :
    code.isInert = false ∧ code.step? = none ∧ code.unary? = none ∧ ∃ f, code.binary? = some f := by
  cases op <;> simp only [Tag.binaryOp?, Option.some.injEq, reduceCtorEq] at h <;> subst h <;>
    simp [Opcode.isInert, Opcode.step?, Opcode.unary?, Opcode.binary?]

/-! ## Nodes -/

/-- The unresolved names that were reported. -/
def unresolved (s : Fold.State) : List String :=
  (Report.complaints s.reports.toList).map (·.name)

/-- From `s` to `s'` some names were found to be unresolved, and reported unless reports are
muted. -/
def Notes (c : Fold.Context) (s s' : Fold.State) (names : List String) : Prop :=
  unresolved s' = unresolved s ++ if c.mute then [] else names

theorem Notes.nil {c : Fold.Context} {s s' : Fold.State} (h : unresolved s' = unresolved s) :
    Notes c s s' [] := by
  simp [Notes, h]

theorem Notes.append {c : Fold.Context} {s s₁ s₂ : Fold.State} {names names' : List String}
    (h : Notes c s s₁ names) (h' : Notes c s₁ s₂ names') : Notes c s s₂ (names ++ names') := by
  unfold Notes at h h' ⊢
  rw [h', h]
  cases c.mute <;> simp

/-- Folding from `s` to `x` and `s'` does what a tree means. -/
def Agrees (c : Fold.Context) (m : Option Node) (s : Fold.State) (x : Fold.Operand)
    (s' : Fold.State) : Prop :=
  x.slot = place? s'.scope m.toList ∧
    ∃ new, (∀ names, meaning? m ⟨s.scope, names⟩ = (x.value, ⟨s'.scope, names ++ new⟩)) ∧
      Notes c s s' new

/-- Folding a node does what its tree means, under whatever parent it is lowered. -/
def AgreesAt (c : Fold.Context)
    (recur : NodeId → Nat → Lower.Substitution → Lower.Run (Option Node)) (n : NodeId)
    (s : Fold.State) (x : Fold.Operand) (s' : Fold.State) : Prop :=
  ∀ parent ls, Agrees c (recur n parent .none ls).1 s x s'

/-- The values of the operands that there are, or of fewer when an operand is invalid. -/
def Present (vs : List Value) (xs : List Fold.Operand) : Prop :=
  vs = xs.map (·.value) ∨ vs.length < xs.length ∧ ∃ x ∈ xs, x.value = .invalid

theorem Present.cons {c : Fold.Context} {m : Option Node} {s s' : Fold.State} {x : Fold.Operand}
    {vs : List Value} {xs : List Fold.Operand} (h : Agrees c m s x s') (hv : Present vs xs) :
    Present (m.toList.map (fun _ => x.value) ++ vs) (x :: xs) := by
  cases m with
  | some m =>
    rcases hv with rfl | ⟨hl, y, hy, hi⟩
    · exact .inl (by simp)
    · exact .inr ⟨by simpa using hl, y, List.mem_cons_of_mem x hy, hi⟩
  | none =>
    obtain ⟨_, new, hm, _⟩ := h
    have hx : x.value = .invalid := (congrArg Prod.fst (hm [])).symm
    have hl : vs.length ≤ xs.length := by
      rcases hv with rfl | ⟨hl, _⟩
      · simp
      · exact Nat.le_of_lt hl
    exact .inr ⟨by simpa using Nat.lt_succ_of_le hl, x, by simp, hx⟩

private theorem agrees_operands {c : Fold.Context} {ms : List (Option Node)} {s s' : Fold.State}
    {xs : List Fold.Operand} (h : InTurn (Agrees c) ms s xs s') :
    ∃ vs new, Present vs xs ∧
      (∀ names, meanings (ms.flatMap Option.toList) ⟨s.scope, names⟩ =
        (vs, ⟨s'.scope, names ++ new⟩)) ∧
      Notes c s s' new := by
  induction h with
  | nil s => exact ⟨[], [], .inl rfl, fun names => by simp [meanings], .nil rfl⟩
  | cons first _ ih =>
    obtain ⟨vs, new, hv, hm, hu⟩ := ih
    have hp := hv.cons first
    obtain ⟨_, new', hm', hu'⟩ := first
    refine ⟨_, new' ++ new, hp, fun names => ?_, hu'.append hu⟩
    rw [List.flatMap_cons, meanings_append, meanings_toList, hm']
    simp [hm]

theorem Present.apply_unary {op : Opcode} {f : Value → Value} (hf : op.unary? = some f)
    {vs : List Value} {x : Fold.Operand} (h : Present vs [x]) : op.apply vs = f x.value := by
  rcases h with rfl | ⟨hl, y, hy, hi⟩
  · simp [Opcode.apply, hf]
  · obtain rfl : vs = [] := List.length_eq_zero_iff.mp (by simpa using hl)
    obtain rfl : y = x := by simpa using hy
    rw [hi, Opcode.unary?_of_invalid hf rfl]
    rfl

theorem Present.apply_binary {op : Opcode} {f : Value → Value → Value} (hu : op.unary? = none)
    (hf : op.binary? = some f) {vs : List Value} {x y : Fold.Operand} (h : Present vs [x, y]) :
    op.apply vs = f x.value y.value := by
  rcases h with rfl | ⟨hl, z, hz, hi⟩
  · simp [Opcode.apply, hf]
  · have hv : x.value.isValid = false ∨ y.value.isValid = false := by
      simp only [List.mem_cons, List.not_mem_nil, or_false] at hz
      rcases hz with rfl | rfl <;> simp [hi]
    rw [Opcode.binary?_of_invalid hf hv]
    match vs, hl with
    | [], _ => rfl
    | [v], _ => simp [Opcode.apply, hu]

theorem Present.stepped {op : Opcode} {step : Value → Value} {after : Bool}
    (hf : op.step? = some (step, after)) {vs : List Value} {x : Fold.Operand}
    (h : Present vs [x]) {ms : List Node} {st : Meaning.State} (hs : x.slot = place? st.scope ms) :
    Meaning.stepped step after ms vs st =
      ((if after then step x.value else x.value).asRvalue,
        { st with scope := Fold.written x.slot (step x.value) st.scope }) := by
  rcases h with rfl | ⟨hl, y, hy, hi⟩
  · cases hp : place? st.scope ms with
    | none => simp [Meaning.stepped, hs, hp, Fold.written]
    | some slot => by_cases hv : (step x.value).isValid <;>
        simp [Meaning.stepped, hs, hp, Fold.written, hv]
  · obtain rfl : vs = [] := List.length_eq_zero_iff.mp (by simpa using hl)
    obtain rfl : y = x := by simpa using hy
    have hw : Fold.written y.slot .invalid st.scope = st.scope := by
      cases y.slot <;> simp [Fold.written]
    rw [hi, Opcode.step?_of_invalid hf rfl, hw, ite_self]
    rfl

/-! ## Shapes -/

variable {c : Fold.Context} {recur : NodeId → Nat → Lower.Substitution → Lower.Run (Option Node)}

theorem Agrees.congr {m : Option Node} {s s' s'' : Fold.State} {x : Fold.Operand}
    (h : Agrees c m s x s') (hs : s''.scope = s'.scope) (hu : unresolved s'' = unresolved s') :
    Agrees c m s x s'' := by
  unfold Agrees Notes
  rw [hs, hu]
  exact h

/-- A tree without a value and an effect agrees with folding to nothing. -/
theorem agrees_absent {m : Option Node} {s s' : Fold.State}
    (hm : ∀ st, meaning? m st = (.invalid, st)) (hp : place? s'.scope m.toList = none)
    (hs : s'.scope = s.scope) (hu : unresolved s' = unresolved s) : Agrees c m s .absent s' :=
  ⟨hp.symm, [], fun names => by simp [hm, hs, Fold.Operand.absent], .nil hu⟩

variable (recur) in
private theorem visitOperation_eq (op : Opcode) (ns : List NodeId) (parent : Nat)
    (σ : Lower.Substitution) (ls : Lower.State) :
    ∃ id ls', (Lower.visitOperation recur op ns parent σ ls).1 =
      some (.operation id parent op (Lower.visitOperands recur id σ ns ls').1) :=
  ⟨_, _, rfl⟩

private theorem visitOperation_inert {op : Opcode} (hi : op.isInert = true) (ns : List NodeId)
    (parent : Nat) (σ : Lower.Substitution) (ls : Lower.State) {s s' : Fold.State}
    (hs : s'.scope = s.scope) (hu : unresolved s' = unresolved s) :
    Agrees c (Lower.visitOperation recur op ns parent σ ls).1 s .absent s' := by
  obtain ⟨id, ls', h⟩ := visitOperation_eq recur op ns parent σ ls
  rw [h]
  exact agrees_absent (meaning_inert hi id parent _) rfl hs hu

private theorem visitOperands_agrees {ns : List NodeId} {s s' : Fold.State} {xs : List Fold.Operand}
    (h : InTurn (AgreesAt c recur) ns s xs s') (parent : Nat) (ls : Lower.State) :
    ∃ ms : List (Option Node),
      (Lower.visitOperands recur parent .none ns ls).1 = ms.flatMap Option.toList ∧
      InTurn (Agrees c) ms s xs s' := by
  induction h generalizing ls with
  | nil s => exact ⟨[], rfl, .nil s⟩
  | cons first _ ih =>
    obtain ⟨ms, hm, ht⟩ := ih (recur _ parent .none ls).2
    refine ⟨(recur _ parent .none ls).1 :: ms, ?_, .cons (first parent ls) ht⟩
    rw [List.flatMap_cons, ← hm]
    rfl

/-- The state after a shape has stepped its operand. -/
def after (shape : Shape) (xs : List Fold.Operand) (s : Fold.State) : Fold.State :=
  { s with scope := Fold.stepped shape xs s.scope }

private theorem after_of_step?_none {shape : Shape} (h : Fold.step? shape = none)
    (xs : List Fold.Operand) (s : Fold.State) : after shape xs s = s := by
  simp [after, Fold.stepped, h]

/-- An operation that steps its operand, before or after its value is taken. -/
theorem visitOperation_step {op : Opcode} {step : Value → Value} {late : Bool}
    (hf : op.step? = some (step, late)) {shape : Shape}
    (hs : Fold.step? shape = some (step, late)) {operand : NodeId} {s s' : Fold.State}
    {xs : List Fold.Operand}
    (h : InTurn (AgreesAt c recur) [operand] s xs s') (parent : Nat) (ls : Lower.State) :
    ∃ x, xs = [x] ∧ Agrees c (Lower.visitOperation recur op [operand] parent .none ls).1 s
      ⟨(if late then step x.value else x.value).asRvalue, none⟩ (after shape xs s') := by
  obtain ⟨id, ls', hop⟩ := visitOperation_eq recur op [operand] parent .none ls
  obtain ⟨ms, hms, hin⟩ := visitOperands_agrees h id ls'
  obtain ⟨vs, new, hv, hm, hu⟩ := agrees_operands hin
  obtain ⟨x, rfl, _⟩ := h.one
  obtain ⟨m, rfl⟩ := List.length_eq_one_iff.mp hin.length_eq.symm
  obtain ⟨_, hx, first⟩ := hin.one
  cases hx
  refine ⟨x, rfl, ?_⟩
  rw [hop, hms]
  refine ⟨rfl, new, fun names => ?_, hu⟩
  rw [meaning?, meaning_step hf, hm]
  refine (hv.stepped hf (by simpa using first.1)).trans ?_
  simp [after, Fold.stepped, hs]

private theorem visitOperation_apply {op : Opcode} (hi : op.isInert = false) (hs : op.step? = none)
    {ns : List NodeId} {s s' : Fold.State} {xs : List Fold.Operand} {v : Value}
    (hv : ∀ vs, Present vs xs → op.apply vs = v)
    (h : InTurn (AgreesAt c recur) ns s xs s') (parent : Nat) (ls : Lower.State) :
    Agrees c (Lower.visitOperation recur op ns parent .none ls).1 s ⟨v, none⟩ s' := by
  obtain ⟨id, ls', hop⟩ := visitOperation_eq recur op ns parent .none ls
  obtain ⟨ms, hms, hin⟩ := visitOperands_agrees h id ls'
  obtain ⟨vs, new, hp, hm, hu⟩ := agrees_operands hin
  rw [hop, hms]
  refine ⟨rfl, new, fun names => ?_, hu⟩
  rw [meaning?, meaning_apply hi hs, hm, hv vs hp]

/-- The operations of operators before an operand: edges, steps, and operators with a value. -/
theorem unaryOp?_cases {op : Tag} {code : Opcode} (h : op.unaryOp? = some code)
    (bound : String → Bool) (operand : NodeId) :
    (code.isInert = true ∧ Fold.operands bound (.unary op operand) = []) ∨
      Fold.operands bound (.unary op operand) = [operand] ∧
        ((∃ f, code.step? = some (f, true)) ∨
          code.isInert = false ∧ code.step? = none ∧ ∃ f, code.unary? = some f) := by
  cases op <;> simp only [Tag.unaryOp?, Option.some.injEq, reduceCtorEq] at h <;> subst h <;>
    simp [Opcode.isInert, Opcode.step?, Opcode.unary?, Fold.operands, Tag.unaryOp?]

private theorem unary_agrees {op : Tag} {code : Opcode} (hc : op.unaryOp? = some code)
    {operand : NodeId} {bound : String → Bool} {s s' : Fold.State} {xs : List Fold.Operand}
    (h : InTurn (AgreesAt c recur) (Fold.operands bound (.unary op operand)) s xs s')
    (scope : Scope) (parent : Nat) (ls : Lower.State) :
    Agrees c (Lower.visitOperation recur code [operand] parent .none ls).1 s
      (Fold.result scope (.unary op operand) xs) (after (.unary op operand) xs s') := by
  rcases unaryOp?_cases hc bound operand with ⟨hi, ho⟩ | ⟨ho, ⟨f, hf⟩ | ⟨hi, hs, f, hf⟩⟩
  · rw [ho] at h
    cases h
    exact visitOperation_inert hi [operand] parent .none ls (by simp [after, Fold.stepped]) rfl
  · rw [ho] at h
    have hs : Fold.step? (.unary op operand) = some (f, true) := by simp [Fold.step?, hc, hf]
    obtain ⟨x, rfl, ha⟩ := visitOperation_step hf hs h parent ls
    simpa [Fold.result, hc, hf] using ha
  · rw [ho] at h
    obtain ⟨x, rfl, _⟩ := h.one
    rw [after_of_step?_none (by simp [Fold.step?, hc, hs])]
    have ha := visitOperation_apply hi hs (fun vs hv => hv.apply_unary hf) h parent ls
    simpa [Fold.result, hc, hs, hf] using ha

private theorem binary_agrees {op : Tag} {code : Opcode} (hc : op.binaryOp? = some code)
    {left right : NodeId} {bound : String → Bool} {s s' : Fold.State} {xs : List Fold.Operand}
    (h : InTurn (AgreesAt c recur) (Fold.operands bound (.binary left op right)) s xs s')
    (scope : Scope) (parent : Nat) (ls : Lower.State) :
    Agrees c (Lower.visitOperation recur code [left, right] parent .none ls).1 s
      (Fold.result scope (.binary left op right) xs) s' := by
  obtain ⟨hi, hs, hu, f, hf⟩ := binaryOp?_eq_some hc
  have ho : Fold.operands bound (.binary left op right) = [left, right] := by
    simp [Fold.operands, hc, hf]
  rw [ho] at h
  obtain ⟨x, y, _, rfl, _⟩ := h.two
  have ha := visitOperation_apply hi hs (fun vs hv => hv.apply_binary hu hf) h parent ls
  simpa [Fold.result, hc, hf] using ha

private theorem literal_agrees {tag : Tag} {text : String}
    (h : (Shape.literal tag text).isCarried = true) (scope : Scope) (xs : List Fold.Operand)
    (s : Fold.State) (parent : Nat) (ls : Lower.State) :
    Agrees c (Lower.visitLiteral tag text parent ls).1 s
      (Fold.result scope (.literal tag text) xs) s := by
  have hv := constantValue_literal h
  cases ht : tag.literalText? text with
  | none =>
    rw [ht, Option.map_none] at hv
    simp only [Lower.visitLiteral, ht, Fold.result, ← hv]
    exact agrees_absent (fun _ => rfl) rfl rfl rfl
  | some content =>
    rw [ht, Option.map_some] at hv
    simp only [Lower.visitLiteral, ht, Fold.result, ← hv]
    exact ⟨rfl, [], fun names => by simp [meaning?, meaning], .nil rfl⟩

private theorem lvalue_agrees {op : Tag} (hc : op.postOp?.isSome = true) {operand : NodeId}
    {s s' : Fold.State} {xs : List Fold.Operand}
    (h : InTurn (AgreesAt c recur) [operand] s xs s') (scope : Scope) (parent : Nat)
    (ls : Lower.State) :
    Agrees c (Lower.visitOperation recur (op.postOp?.getD .null) [operand] parent .none ls).1 s
      (Fold.result scope (.lvalue operand (some op)) xs)
      (after (.lvalue operand (some op)) xs s') := by
  obtain ⟨code, hcode⟩ := Option.isSome_iff_exists.mp hc
  obtain ⟨f, hf⟩ : ∃ f, code.step? = some (f, false) := by
    cases op <;> simp only [Tag.postOp?, Option.some.injEq, reduceCtorEq] at hcode <;>
      subst hcode <;> simp [Opcode.step?]
  have hs : Fold.step? (.lvalue operand (some op)) = some (f, false) := by
    simp [Fold.step?, hcode, hf]
  obtain ⟨x, rfl, ha⟩ := visitOperation_step hf hs h parent ls
  simpa [Fold.result, hcode, hf] using ha

/-! ## Names -/

private theorem withBinding_bound {scope : Scope} {name : String} {slot : Nat}
    (h : scope.lookup name = some slot) (body : Value → Meaning.Run Value) (names : List String) :
    withBinding name body ⟨scope, names⟩ = body (scope.load slot) ⟨scope, names⟩ := by
  simp [withBinding, h]

private theorem withBinding_unbound {scope : Scope} {name : String} (h : scope.lookup name = none)
    (body : Value → Meaning.Run Value) (names : List String) :
    withBinding name body ⟨scope, names⟩ = (.invalid, ⟨scope, names ++ [name]⟩) := by
  simp [withBinding, h]

private theorem readable_eq_reading (v : Value) : Fold.readable v = reading v := by
  cases hd : v.datum <;> simp [Fold.readable, reading, hd, Value.plus, Value.isValid]
  simp [Value.invalid, Value.asRvalue, hd]

private theorem selected_bit (v i : Value) (index : NodeId) :
    Fold.selected v (.bit index) [i] = between v i i := by
  cases hi : Fold.boundOf i <;> simp [Fold.selected, between, hi]

@[simp] theorem selected_part (v hi lo : Value) (left right : NodeId) :
    Fold.selected v (.part left right) [hi, lo] = between v hi lo := rfl

private theorem selected_indexed {tag : Tag} {direction : Direction}
    (h : tag.direction? = some direction) (v base width : Value) (left right : NodeId) :
    Fold.selected v (.indexed left tag right) [base, width] = counted v direction base width := by
  simp only [Fold.selected, counted, Fold.indexedSlice, h]
  cases direction <;> rfl

variable (recur) in
/-- The tree of a name, whatever select stands behind it, has nothing but the name to say when the
name has no cell. -/
theorem visitName_unbound {scope : Scope} {ident : Ident} (h : scope.lookup ident.name = none)
    (parent : Nat) (ls : Lower.State) :
    place? scope (Lower.visitName recur ident parent .none ls).1.toList = none ∧
      ∀ names, meaning? (Lower.visitName recur ident parent .none ls).1 ⟨scope, names⟩ =
        (.invalid, ⟨scope, names ++ [ident.name]⟩) := by
  cases hs : ident.select with
  | none | bit _ | part _ _ | indexed _ _ _ =>
    simp [Lower.visitName, Lower.visitPlainName, Lower.Substitution.none, hs, place?, meaning?,
      meaning, withBinding_unbound, h]

private theorem name_agrees {ident : Ident} (hc : (Shape.name ident).isCarried = true) {slot : Nat}
    {s s' : Fold.State} {xs : List Fold.Operand} (hb : s.scope.lookup ident.name = some slot)
    (h : InTurn (AgreesAt c recur) ident.select.bounds s xs s') (parent : Nat) (ls : Lower.State) :
    Agrees c (Lower.visitName recur ident parent .none ls).1 s (Fold.named s.scope ident xs)
      s' := by
  cases hs : ident.select with
  | none =>
    rw [hs, Select.bounds] at h
    cases h
    simp only [Lower.visitName, Lower.visitPlainName, Lower.Substitution.none, hs, Fold.named, hb,
      readable_eq_reading]
    refine ⟨by simp [place?, hb], [], fun names => ?_, .nil rfl⟩
    simp [meaning?, meaning, withBinding_bound hb]
  | bit index =>
    rw [hs, Select.bounds] at h
    obtain ⟨x, rfl, hx⟩ := h.one
    obtain ⟨id, ls', hn⟩ : ∃ id ls', (Lower.visitName recur ident parent .none ls).1 =
        some (.bitSelect id parent ident.name (recur index id .none ls').1) := by
      rw [Lower.visitName, hs]
      exact ⟨_, _, rfl⟩
    obtain ⟨_, new, hm, hu⟩ := hx id ls'
    simp only [hn, Fold.named, hb, hs, List.map_cons, List.map_nil, selected_bit]
    refine ⟨rfl, new, fun names => ?_, hu⟩
    simp [meaning?, meaning, withBinding_bound hb, hm]
  | part left right =>
    rw [hs, Select.bounds] at h
    obtain ⟨x, y, s₁, rfl, hx, hy⟩ := h.two
    obtain ⟨id, object, lx, ly, hn, ho⟩ : ∃ id object lx ly,
        (Lower.visitName recur ident parent .none ls).1 = some (.partSelect id (some object) true
          (recur left id .none lx).1 (recur right id .none ly).1) ∧ object.name = ident.name := by
      rw [Lower.visitName, hs]
      exact ⟨_, _, _, _, rfl, rfl⟩
    obtain ⟨_, new, hm, hu⟩ := hx id lx
    obtain ⟨_, new', hm', hu'⟩ := hy id ly
    simp only [hn, Fold.named, hb, hs, List.map_cons, List.map_nil, selected_part]
    refine ⟨rfl, new ++ new', fun names => ?_, hu.append hu'⟩
    simp [meaning?, meaning, ho, withBinding_bound hb, hm, hm']
  | indexed base tag width =>
    rw [hs, Select.bounds] at h
    obtain ⟨direction, hd⟩ : ∃ direction, tag.direction? = some direction := by
      simpa [Shape.isCarried, hs, Option.isSome_iff_exists] using hc
    obtain ⟨x, y, s₁, rfl, hx, hy⟩ := h.two
    obtain ⟨id, object, lx, ly, hn, ho⟩ : ∃ id object lx ly,
        (Lower.visitName recur ident parent .none ls).1 =
          some (.indexedSelect id (some object) direction true (recur base id .none lx).1
            (recur width id .none ly).1) ∧ object.name = ident.name := by
      have hdir : tag.direction?.getD .down = direction := by rw [hd, Option.getD_some]
      rw [Lower.visitName, hs, ← hdir]
      exact ⟨_, _, _, _, rfl, rfl⟩
    obtain ⟨_, new, hm, hu⟩ := hx id lx
    obtain ⟨_, new', hm', hu'⟩ := hy id ly
    simp only [hn, Fold.named, hb, hs, List.map_cons, List.map_nil, selected_indexed hd]
    refine ⟨rfl, new ++ new', fun names => ?_, hu.append hu'⟩
    simp [meaning?, meaning, ho, withBinding_bound hb, hm, hm']

/-! ## Every node -/

private theorem unresolved_closed (form : Form) (scope : Scope) (xs : List Fold.Operand)
    (s : Fold.State) : unresolved (Fold.closed c form scope xs s) = unresolved s := by
  simp [unresolved, Fold.closed, Report.complaints]

private theorem unresolved_warn (n : NodeId) (s : Fold.State) :
    unresolved (Fold.warn c n s).2 = unresolved s := by
  cases hw : s.warned <;> simp [unresolved, Fold.warn, Fold.report, Report.complaints, hw]

private theorem notes_unresolved (site : NodeId) (name : String) (s : Fold.State) :
    Notes c s (Fold.unresolved c site name s).2 [name] := by
  cases hm : c.mute <;>
    simp [Notes, unresolved, Fold.unresolved, Fold.report, Report.complaints, hm]

/-- A name without a cell is reported, and noted where its tree is interpreted. -/
theorem unbound_agrees {ident : Ident} {s : Fold.State} (h : s.scope.lookup ident.name = none)
    (site : NodeId) (parent : Nat) (ls : Lower.State) :
    Agrees c (Lower.visitName recur ident parent .none ls).1 s .absent
      (Fold.unresolved c site ident.name s).2 := by
  have hs := Fold.unresolved_scope c site ident.name s
  obtain ⟨hp, hm⟩ := visitName_unbound recur h parent ls
  refine ⟨?_, [ident.name], fun names => ?_, notes_unresolved site ident.name s⟩
  · rw [hs, hp]
    rfl
  · rw [hs, hm names]
    rfl

private theorem lastCombinator_inert {rest : List (Tag × NodeId)} (hr : rest ≠ [])
    (h : ∀ item ∈ rest, item.1.combinator?.isSome = true) :
    (Lower.lastCombinator rest).isInert = true := by
  obtain ⟨items, last, rfl⟩ := (List.eq_nil_or_concat rest).resolve_left hr
  obtain ⟨op, hop⟩ := Option.isSome_iff_exists.mp (h last (by simp))
  have hl : Lower.lastCombinator (items.concat last) = op := by
    simp [Lower.lastCombinator, hop]
  rw [hl]
  cases ht : last.1 <;> simp only [ht, Tag.combinator?, Option.some.injEq, reduceCtorEq] at hop <;>
    subst hop <;> rfl

private theorem visit_agrees {form : Form} (hr : form.shape.Regular)
    (hc : form.shape.isCarried = true) {s s' : Fold.State} {xs : List Fold.Operand}
    (h : InTurn (AgreesAt c recur) (Fold.operands s.scope.binds form.shape)
      (Fold.opened c form s) xs s') (parent : Nat) (ls : Lower.State) :
    Agrees c (Lower.visit recur form parent .none ls).1 s (Fold.result s.scope form.shape xs)
      (Fold.closed c form s.scope xs s') := by
  obtain ⟨node, site, shape⟩ := form
  refine Agrees.congr (?_ : Agrees c _ s _ (after shape xs s')) rfl (unresolved_closed _ _ _ _)
  cases shape with
  | empty | call =>
    cases h
    exact agrees_absent (fun _ => rfl) rfl rfl rfl
  | concat tag operands =>
    cases h
    refine visitOperation_inert ?_ operands parent .none ls rfl rfl
    split <;> rfl
  | events first rest =>
    cases h
    have hn : rest ≠ [] := by simpa [Shape.isCarried] using hc
    have hi := lastCombinator_inert hn hr
    cases rest with
    | nil => exact absurd rfl hn
    | cons item rest => exact visitOperation_inert hi _ parent .none ls rfl rfl
  | unary op operand =>
    obtain ⟨code, hcode⟩ := Option.isSome_iff_exists.mp hr
    simp only [Lower.visit, hcode]
    exact unary_agrees hcode h s.scope parent ls
  | binary left op right =>
    obtain ⟨code, hcode⟩ := Option.isSome_iff_exists.mp hc
    simp only [Lower.visit, hcode, Option.getD_some]
    exact binary_agrees hcode h s.scope parent ls
  | literal tag text =>
    cases h
    exact literal_agrees hc s.scope [] s parent ls
  | name ident =>
    cases hl : s.scope.lookup ident.name with
    | none =>
      have hb : s.scope.binds ident.name = false := by simp [Scope.binds, hl]
      simp only [Fold.operands, Fold.opened, hb, Bool.false_eq_true, if_false] at h
      cases h
      rw [after_of_step?_none rfl]
      simp only [Fold.result, Fold.named, hl]
      exact unbound_agrees hl site parent ls
    | some slot =>
      have hb : s.scope.binds ident.name = true := by simp [Scope.binds, hl]
      simp only [Fold.operands, Fold.opened, hb, if_true] at h
      exact name_agrees hc hl h parent ls
  | lvalue operand op =>
    cases op with
    | none =>
      obtain ⟨x, rfl, hx⟩ := h.one
      exact hx parent ls
    | some op => exact lvalue_agrees hr h s.scope parent ls

private theorem fold_agrees (c : Fold.Context) (scope : Scope) (budget : Nat) (n : NodeId)
    (h : ∀ k ∈ Fold.visits c.tree scope.binds budget n, k.budget ≠ 0 →
      (k.form c.tree).shape.isCarried = true)
    (s : Fold.State) (hs : s.scope.levels = scope.levels) (parent : Nat) (ls : Lower.State) :
    Agrees c (Lower.lowerNode ⟨c.tree, c.limit⟩ budget n parent .none ls).1 s
      (Fold.fold c budget n s).1 (Fold.fold c budget n s).2 := by
  refine Fold.fold_induction c scope (P := fun budget n s x s' =>
    (∀ k ∈ Fold.visits c.tree scope.binds budget n, k.budget ≠ 0 →
      (k.form c.tree).shape.isCarried = true) →
    AgreesAt c (Lower.lowerNode ⟨c.tree, c.limit⟩ budget) n s x s') ?_ ?_ budget n s hs h parent ls
  · intro n s _ _ parent ls
    exact agrees_absent (fun _ => rfl) rfl (Fold.warn_scope c n s) (unresolved_warn n s)
  · intro budget n s xs s' hs hin hk parent ls
    refine visit_agrees (Form.decode_regular c.tree n) ?_ ?_ parent ls
    · exact hk ⟨budget + 1, n⟩ (by simp [Fold.visits]) (by simp)
    · rw [Scope.binds_congr hs]
      refine hin.imp fun m hm s x s' ha => ha fun k hv => ?_
      exact hk k (by
        rw [Fold.visits, List.mem_append, List.mem_flatMap]
        exact .inl ⟨m, hm, hv⟩)

/-- Where no visited shape says more to one engine than to the other, folding an expression gives
the value that its lowered tree means, leaves the scope as the tree does, and reports the names
that the tree finds unresolved, in order. -/
theorem evaluate_eq_meaning (c : Fold.Context) (n : NodeId) (scope : Scope) (parent : Nat)
    (factory : Factory)
    (h : ∀ k ∈ Fold.visits c.tree scope.binds c.limit n, k.budget ≠ 0 →
      (k.form c.tree).shape.isCarried = true) :
    let folded := Fold.evaluate c n scope
    let lowered := Lower.lower ⟨c.tree, c.limit⟩ n parent .none factory
    let meant := meaning? lowered.node { scope }
    folded.value = meant.1 ∧ folded.scope = meant.2.scope ∧
      (Report.complaints folded.reports).map (·.name) =
        if c.mute then [] else meant.2.unresolved := by
  obtain ⟨_, new, hm, hu⟩ := fold_agrees c scope c.limit n h { scope } rfl parent { factory }
  intro folded lowered meant
  have hmeant : meant = (folded.value, ⟨folded.scope, new⟩) := hm []
  rw [hmeant]
  exact ⟨rfl, rfl, hu⟩

/-- `(x++ + ++x) * w[2 +: 3] - q[y]` -/
def sample : NodeId × Tree :=
  (do
    let sum ← Tree.Build.binary (← Tree.Build.postStep .incDecPlusPlus ["x"]) .binOpPlus
      (← Tree.Build.preStep .incDecPlusPlus ["x"])
    let field ← Tree.Build.indexedSelect "w" (← Tree.Build.literal .intConst "2") true
      (← Tree.Build.literal .intConst "'b11")
    let product ← Tree.Build.binary (← Tree.Build.paren sum) .binOpMult field
    Tree.Build.binary product .binOpMinus
      (← Tree.Build.bitSelect "q" (← Tree.Build.ident ["y"])) : Tree.Build NodeId) ⟨"a.sv", #[]⟩

/-- `x` is 5 and `w` is a byte; nothing binds `q` and `y`. -/
def sampleScope : Scope := (Scope.empty.enter.set "x" (.signed 5)).set "w" (.sized 0b10110 8)

theorem evaluate_eq_meaning_sample :
    let c : Fold.Context := ⟨sample.2, false, 10⟩
    (∀ k ∈ Fold.visits c.tree sampleScope.binds c.limit sample.1, k.budget ≠ 0 →
      (k.form c.tree).shape.isCarried = true) ∧
    let folded := Fold.evaluate c sample.1 sampleScope
    let meant := meaning? (Lower.lower ⟨c.tree, c.limit⟩ sample.1 0 .none {}).node
      { scope := sampleScope }
    folded.value = meant.1 ∧ folded.scope = meant.2.scope ∧
      (Report.complaints folded.reports).map (·.name) =
        if c.mute then [] else meant.2.unresolved := by
  intro c
  have h : ∀ k ∈ Fold.visits c.tree sampleScope.binds c.limit sample.1, k.budget ≠ 0 →
      (k.form c.tree).shape.isCarried = true := by decide +kernel
  exact ⟨h, evaluate_eq_meaning c sample.1 sampleScope 0 {} h⟩

/-- The value of an expression over the sample scope and the value that its lowered tree means. -/
def values (build : Tree.Build NodeId) : Value × Value :=
  let (n, t) := build ⟨"a.sv", #[]⟩
  ((Fold.evaluate ⟨t, false, 10⟩ n sampleScope).value,
    (meaning? (Lower.lower ⟨t, 10⟩ n 0 .none {}).node { scope := sampleScope }).1)

open Tree.Build in
/-- Each of the five kinds of shape that have to be kept out makes the two values differ: a null, a
single bit with the text of the other one, operands without an operator, a lone event, and a
select without a direction. -/
theorem values_differ :
    (∃ v w, values null = (v, w) ∧ v.isSigned = false ∧ w.isSigned = true) ∧
      (∃ v w, values (literal .numberTick1 "'0") = (v, w) ∧ v.toWord = 1 ∧ w.toWord = 0) ∧
      (∃ v w, values (do binary (← literal .intConst "9") .orOperator (← literal .intConst "4")) =
        (v, w) ∧ v.isValid = true ∧ w.isValid = false) ∧
      (∃ v w, values (do node .expression [← events [.inl (← ident ["x"])]]) = (v, w) ∧
        v.isValid = false ∧ w.isValid = true) ∧
      ∃ v w, values (do
          let bounds := [← literal .intConst "4", ← leaf .orOperator "", ← literal .intConst "3"]
          let range ← node .partSelectRange [← node .constantIndexedRange bounds]
          selected "w" (← node .select [range])) = (v, w) ∧
        v.isValid = false ∧ w.isValid = true := by
  refine ⟨⟨_, _, rfl, ?_⟩, ⟨_, _, rfl, ?_⟩, ⟨_, _, rfl, ?_⟩, ⟨_, _, rfl, ?_⟩, ⟨_, _, rfl, ?_⟩⟩ <;>
    decide +kernel

end Agreement

end HdlExpr
