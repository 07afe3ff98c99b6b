import HdlExpr.Proofs.Value.Representation

/-!
# Flat records

A value as one flat record, in which everything that belongs to other kinds is empty.  Constructors
and operators look at the kind of a record first, and make new records of the fields that belong to
it.  They do to records what they do to values.
-/

namespace HdlExpr.Value

structure Fields where
  kind : Kind := .invalid
  bits : Word := 0
  width : Nat := 0
  signed : Bool := false
  real : Float := 0
  text : String := ""
  lvalue : Bool := false

def fields (v : Value) : Fields :=
  match v.datum with
  | .invalid => { kind := .invalid, lvalue := v.lvalue }
  | .integer i =>
    { kind := .integer, bits := i.bits, width := i.width, signed := i.signed, lvalue := v.lvalue }
  | .real x => { kind := .real, real := x, lvalue := v.lvalue }
  | .text s => { kind := .text, text := s, lvalue := v.lvalue }

namespace Fields

/-! ## Constructors -/

def ofSigned (w : Word) : Fields := { kind := .integer, bits := w, signed := true }

def ofUnsigned (w : Word) : Fields := { kind := .integer, bits := w }

def ofSized (w : Word) (width : Int) : Fields :=
  if width ≤ 0 ∨ 64 < width then ofUnsigned w
  else { kind := .integer, bits := w.clip width.toNat, width := width.toNat }

def ofScalar (w : Word) : Fields := ofSized (w &&& 1) 1

def ofBool (b : Bool) : Fields := ofUnsigned (if b then 1 else 0)

def ofReal (x : Float) : Fields := { kind := .real, real := x }

def ofText (s : String) : Fields := { kind := .text, text := s }

def ofPlain? : Plain → Option Fields
  | .int i => some (ofSigned (BitVec.ofInt 64 i))
  | .uint n => some (ofUnsigned (BitVec.ofNat 64 n))
  | .real x => some (ofReal x)
  | .bool b => some (ofScalar (if b then 1 else 0))
  | .text s => some (ofText s)
  | .null | .list _ | .map _ => none

def ofClipped (bits : Word) (width : Nat) (signed : Bool) : Fields :=
  { kind := .integer, bits := bits.clip width, width, signed }

def mark (lvalue : Bool) (f : Fields) : Fields := { f with lvalue }

/-! ## Operators -/

def integer (f : Fields) : Integer := ⟨f.bits, f.width, f.signed⟩

def toFloat (f : Fields) : Float :=
  match f.kind with
  | .real => f.real
  | .integer => Float.ofInt f.integer.toInt
  | _ => 0.0 / 0.0

def truth (f : Fields) : Bool :=
  match f.kind with
  | .integer => f.bits != 0
  | .real => f.real != 0.0
  | .text => f.text != ""
  | .invalid => false

def plus (f : Fields) : Fields := if f.kind ≠ .invalid then f.mark false else {}

def minus (f : Fields) : Fields :=
  match f.kind with
  | .integer => ofClipped (-f.integer.word) f.width f.signed
  | .real => ofReal (-f.real)
  | _ => {}

def not (f : Fields) : Fields :=
  match f.kind with
  | .integer | .real => ofBool (!f.truth)
  | _ => {}

def complement (f : Fields) : Fields :=
  if f.kind ≠ .integer then {} else ofClipped (~~~f.bits) f.width f.signed

def step (up : Bool) (f : Fields) : Fields :=
  match f.kind with
  | .integer =>
    (ofClipped (if up then f.integer.word + 1 else f.integer.word - 1) f.width f.signed).mark
      f.lvalue
  | .real => (ofReal (if up then f.real + 1.0 else f.real - 1.0)).mark f.lvalue
  | _ => {}

/-- How a binary operator treats two records: as integers, as reals if one is real, as strings, or
not at all. -/
def classify (a b : Fields) : Kind :=
  if a.kind = .invalid ∨ b.kind = .invalid then .invalid
  else if a.kind = .text ∧ b.kind = .text then .text
  else if a.kind = .text ∨ b.kind = .text then .invalid
  else if a.kind = .real ∨ b.kind = .real then .real
  else .integer

def arithmetic (onWords : Word → Word → Bool → Option Word)
    (onReals : Float → Float → Option Float) (a b : Fields) : Fields :=
  match classify a b with
  | .integer =>
    let signed := a.signed && b.signed
    ((onWords a.integer.word b.integer.word signed).map fun w => ofClipped w 0 signed).getD {}
  | .real => ((onReals a.toFloat b.toFloat).map ofReal).getD {}
  | _ => {}

def compare? (a b : Fields) : Option Ordering :=
  match classify a b with
  | .integer =>
    some <| if a.signed && b.signed then compare a.integer.word.toInt b.integer.word.toInt
      else compare a.integer.word.toNat b.integer.word.toNat
  | .real => some (compareReals a.toFloat b.toFloat)
  | .text => some (compare a.text b.text)
  | .invalid => none

def relation (holds : Ordering → Bool) (a b : Fields) : Fields :=
  ((compare? a b).map fun o => ofBool (holds o)).getD {}

def connective (f : Bool → Bool → Bool) (a b : Fields) : Fields :=
  if a.kind = .invalid ∨ b.kind = .invalid then {} else ofBool (f a.truth b.truth)

def bitwise (f : Word → Word → Word) (a b : Fields) : Fields :=
  if classify a b ≠ .integer then {}
  else
    ofClipped (f a.integer.word b.integer.word)
      (if a.width ≠ 0 ∧ b.width ≠ 0 then max a.width b.width else 0) (a.signed && b.signed)

def shift (f : Integer → Nat → Word) (a b : Fields) : Fields :=
  if classify a b ≠ .integer then {}
  else ofClipped (f a.integer b.bits.toNat) a.width a.signed

def shiftLeft : Fields → Fields → Fields :=
  shift fun i n => if 64 ≤ n then 0 else i.bits <<< n

def shiftRight : Fields → Fields → Fields :=
  shift fun i n => if 64 ≤ n then 0 else i.bits.clip i.width >>> n

def arithShiftRight (a b : Fields) : Fields :=
  if a.signed then shift (fun i n => i.word.sshiftRight (min n 63)) a b else shiftRight a b

def slice (f : Fields) (hi lo : Int) : Fields :=
  if f.kind ≠ .integer then {}
  else
    let high := max hi lo
    let low := min hi lo
    if low < 0 ∨ (f.integer.limit : Int) ≤ high then {}
    else ofSized (f.bits >>> low.toNat) (high - low + 1)

/-- The operator of a code with two operands. -/
def binary? : Ir.Opcode → Option (Fields → Fields → Fields)
  | .add => some (arithmetic (fun x y _ => some (x + y)) fun x y => some (x + y))
  | .sub => some (arithmetic (fun x y _ => some (x - y)) fun x y => some (x - y))
  | .mult => some (arithmetic (fun x y _ => some (x * y)) fun x y => some (x * y))
  | .div => some (arithmetic
      (fun x y signed => if y = 0 then none else some (if signed then x.sdiv y else x / y))
      fun x y => if y == 0.0 then none else some (x / y))
  | .mod => some (arithmetic
      (fun x y signed => if y = 0 then none else some (if signed then x.srem y else x % y))
      fun _ _ => none)
  | .power => some (arithmetic wordPower fun x y =>
      let z := RealPower.power x y
      if z.isNaN then none else some z)
  | .gt => some (relation (· == .gt))
  | .ge => some (relation (· != .lt))
  | .lt => some (relation (· == .lt))
  | .le => some (relation (· != .gt))
  | .eq | .caseEq => some (relation (· == .eq))
  | .neq | .caseNeq => some (relation (· != .eq))
  | .logAnd => some (connective (· && ·))
  | .logOr => some (connective (· || ·))
  | .bitAnd => some (bitwise (· &&& ·))
  | .bitOr => some (bitwise (· ||| ·))
  | .bitXor => some (bitwise (· ^^^ ·))
  | .bitXnor => some (bitwise fun x y => ~~~(x ^^^ y))
  | .shiftLeft | .arithShiftLeft => some shiftLeft
  | .shiftRight => some shiftRight
  | .arithShiftRight => some arithShiftRight
  | _ => none

/-- The operator of a code with one operand and no effect. -/
def unary? : Ir.Opcode → Option (Fields → Fields)
  | .minus => some minus
  | .plus => some plus
  | .not => some not
  | .bitNeg => some complement
  | _ => none

/-- The records that constructors and operators make. -/
inductive Made : Fields → Prop
  | empty : Made {}
  | ofSigned (w : Word) : Made (ofSigned w)
  | ofUnsigned (w : Word) : Made (ofUnsigned w)
  | ofSized (w : Word) (width : Int) : Made (ofSized w width)
  | ofScalar (w : Word) : Made (ofScalar w)
  | ofBool (b : Bool) : Made (ofBool b)
  | ofReal (x : Float) : Made (ofReal x)
  | ofText (s : String) : Made (ofText s)
  | ofPlain {p : Plain} {f : Fields} (h : ofPlain? p = some f) : Made f
  | unary {op : Ir.Opcode} {g : Fields → Fields} (hg : unary? op = some g) {f : Fields}
      (h : Made f) : Made (g f)
  | binary {op : Ir.Opcode} {g : Fields → Fields → Fields} (hg : binary? op = some g)
      {a b : Fields} (ha : Made a) (hb : Made b) : Made (g a b)
  | step {f : Fields} (h : Made f) (up : Bool) : Made (f.step up)
  | slice {f : Fields} (h : Made f) (hi lo : Int) : Made (f.slice hi lo)
  | mark {f : Fields} (h : Made f) (lvalue : Bool) : Made (f.mark lvalue)

end Fields

/-! ## Values and their records -/

section Fields

variable (a b v : Value)

private theorem fields_sized (w : Word) (width : Int) :
    (sized w width).fields = .ofSized w width := by
  unfold sized Fields.ofSized
  split <;> rfl

private theorem fields_ofPlain? (p : Plain) :
    (ofPlain? p).map fields = Fields.ofPlain? p := by
  cases p with
  | bool b => exact congrArg some (fields_sized _ _)
  | null | int | uint | real | text | list | map => rfl

private theorem fields_arithmetic (onWords : Word → Word → Bool → Option Word)
    (onReals : Float → Float → Option Float) :
    (arithmetic onWords onReals a b).fields =
      .arithmetic onWords onReals a.fields b.fields := by
  have hreals (x y : Float) (h : operands a b = .reals x y) :
      (arithmetic onWords onReals a b).fields = ((onReals x y).map Fields.ofReal).getD {} := by
    simp only [arithmetic, h]
    cases onReals x y <;> rfl
  rcases a with ⟨_ | i | x | s, m⟩ <;> rcases b with ⟨_ | j | y | t, m'⟩ <;> try rfl
  case integer.integer =>
    simp only [arithmetic, operands]
    cases h : onWords i.word j.word (i.signed && j.signed) with
    | none => simp [Fields.arithmetic, fields, Fields.classify, Fields.integer, h, invalid]
    | some w =>
      simp [Fields.arithmetic, fields, Fields.classify, Fields.integer, h, ofInteger,
        Fields.ofClipped, Word.clip]
  all_goals exact hreals _ _ rfl

private theorem compare?_fields : a.fields.compare? b.fields = compare? a b := by
  rcases a with ⟨_ | i | x | s, m⟩ <;> rcases b with ⟨_ | j | y | t, m'⟩ <;> rfl

private theorem fields_relation (holds : Ordering → Bool) :
    (relation holds a b).fields = .relation holds a.fields b.fields := by
  rw [relation, Fields.relation, compare?_fields]
  cases compare? a b <;> rfl

private theorem fields_connective (f : Bool → Bool → Bool) :
    (connective f a b).fields = .connective f a.fields b.fields := by
  rcases a with ⟨_ | i | x | s, m⟩ <;> rcases b with ⟨_ | j | y | t, m'⟩ <;> rfl

private theorem fields_bitwise (f : Word → Word → Word) :
    (bitwise f a b).fields = .bitwise f a.fields b.fields := by
  rcases a with ⟨_ | i | x | s, m⟩ <;> rcases b with ⟨_ | j | y | t, m'⟩ <;> rfl

private theorem fields_shift (f : Integer → Nat → Word) :
    (shift f a b).fields = .shift f a.fields b.fields := by
  rcases a with ⟨_ | i | x | s, m⟩ <;> rcases b with ⟨_ | j | y | t, m'⟩ <;> rfl

private theorem fields_shiftLeft : (a.shiftLeft b).fields = a.fields.shiftLeft b.fields :=
  fields_shift a b _

private theorem fields_shiftRight : (a.shiftRight b).fields = a.fields.shiftRight b.fields :=
  fields_shift a b _

private theorem fields_arithShiftRight :
    (a.arithShiftRight b).fields = a.fields.arithShiftRight b.fields := by
  have hsigned : a.fields.signed = a.isSigned := by
    rcases a with ⟨_ | i | x | s, m⟩ <;> rfl
  rw [arithShiftRight, Fields.arithShiftRight, hsigned]
  split
  · exact fields_shift a b _
  · exact fields_shiftRight a b

private theorem fields_slice (hi lo : Int) : (v.slice hi lo).fields = v.fields.slice hi lo := by
  rcases v with ⟨_ | i | x | s, m⟩ <;> try rfl
  have hkind : ¬(fields ⟨.integer i, m⟩).kind ≠ .integer := fun h => h rfl
  rw [Fields.slice, if_neg hkind]
  by_cases h : min hi lo < 0 ∨ (i.limit : Int) ≤ max hi lo
  · exact (congrArg fields (if_pos h)).trans (if_pos h).symm
  · exact (congrArg fields (if_neg h)).trans ((fields_sized _ _).trans (if_neg h).symm)

private theorem fields_step (up : Bool) : (v.step up).fields = v.fields.step up := by
  rcases v with ⟨_ | i | x | s, m⟩ <;> rfl

private theorem fields_mark : v.asLvalue.fields = v.fields.mark true ∧
    v.asRvalue.fields = v.fields.mark false := by
  rcases v with ⟨_ | i | x | s, m⟩ <;> exact ⟨rfl, rfl⟩

end Fields

/-- An operator does to records what it does to values. -/
private theorem fields_unary (op : Ir.Opcode) :
    (op.unary? = none ∧ Fields.unary? op = none) ∨ ∃ f g, op.unary? = some f ∧
      Fields.unary? op = some g ∧ ∀ v, (f v).fields = g v.fields := by
  cases op <;> first
    | exact .inl ⟨rfl, rfl⟩
    | exact .inr ⟨_, _, rfl, rfl, by rintro ⟨_ | i | x | s, m⟩ <;> rfl⟩

private theorem fields_binary (op : Ir.Opcode) :
    (op.binary? = none ∧ Fields.binary? op = none) ∨ ∃ f g, op.binary? = some f ∧
      Fields.binary? op = some g ∧ ∀ a b, (f a b).fields = g a.fields b.fields := by
  cases op with
  | add | sub | mult | div | mod | power =>
    exact .inr ⟨_, _, rfl, rfl, fun a b => fields_arithmetic a b _ _⟩
  | gt | ge | lt | le | eq | caseEq | neq | caseNeq =>
    exact .inr ⟨_, _, rfl, rfl, fun a b => fields_relation a b _⟩
  | logAnd | logOr => exact .inr ⟨_, _, rfl, rfl, fun a b => fields_connective a b _⟩
  | bitAnd | bitOr | bitXor | bitXnor =>
    exact .inr ⟨_, _, rfl, rfl, fun a b => fields_bitwise a b _⟩
  | shiftLeft | arithShiftLeft => exact .inr ⟨_, _, rfl, rfl, fields_shiftLeft⟩
  | shiftRight => exact .inr ⟨_, _, rfl, rfl, fields_shiftRight⟩
  | arithShiftRight => exact .inr ⟨_, _, rfl, rfl, fields_arithShiftRight⟩
  | _ => exact .inl ⟨rfl, rfl⟩

private theorem exists_value_of_made {f : Fields} (h : f.Made) : ∃ v, Made v ∧ v.fields = f := by
  induction h with
  | empty => exact ⟨_, .invalid, rfl⟩
  | ofSigned w => exact ⟨_, .signed w, rfl⟩
  | ofUnsigned w => exact ⟨_, .unsigned w, rfl⟩
  | ofSized w width => exact ⟨_, .sized w width, fields_sized w width⟩
  | ofScalar w => exact ⟨_, .scalar w, fields_sized _ _⟩
  | ofBool b => exact ⟨_, .ofBool b, rfl⟩
  | ofReal x => exact ⟨_, .real x, rfl⟩
  | ofText s => exact ⟨_, .text s, rfl⟩
  | ofPlain h =>
    rw [← fields_ofPlain?] at h
    obtain ⟨v, hv, hf⟩ := Option.map_eq_some_iff.mp h
    exact ⟨v, .ofPlain hv, hf⟩
  | @unary op g hg f _ ih =>
    obtain ⟨v, hv, rfl⟩ := ih
    obtain ⟨-, hnone⟩ | ⟨f, g', hf, hg', heq⟩ := fields_unary op
    · cases hg.symm.trans hnone
    · obtain rfl := Option.some.inj (hg.symm.trans hg')
      exact ⟨f v, .unary hf hv, heq v⟩
  | @binary op g hg a b _ _ iha ihb =>
    obtain ⟨v, hv, rfl⟩ := iha
    obtain ⟨w, hw, rfl⟩ := ihb
    obtain ⟨-, hnone⟩ | ⟨f, g', hf, hg', heq⟩ := fields_binary op
    · cases hg.symm.trans hnone
    · obtain rfl := Option.some.inj (hg.symm.trans hg')
      exact ⟨f v w, .binary hf hv hw, heq v w⟩
  | step _ up ih =>
    obtain ⟨v, hv, rfl⟩ := ih
    exact ⟨v.step up, .step hv up, fields_step v up⟩
  | slice _ hi lo ih =>
    obtain ⟨v, hv, rfl⟩ := ih
    exact ⟨v.slice hi lo, .slice hv hi lo, fields_slice v hi lo⟩
  | mark _ lvalue ih =>
    obtain ⟨v, hv, rfl⟩ := ih
    cases lvalue with
    | true => exact ⟨v.asLvalue, .asLvalue hv, (fields_mark v).1⟩
    | false => exact ⟨v.asRvalue, .asRvalue hv, (fields_mark v).2⟩

private theorem fields_made {v : Value} (hv : Made v) : v.fields.Made := by
  induction hv with
  | invalid => exact .empty
  | signed w => exact .ofSigned w
  | unsigned w => exact .ofUnsigned w
  | sized w width => exact fields_sized w width ▸ .ofSized w width
  | scalar w => exact fields_sized _ _ ▸ .ofScalar w
  | ofBool b => exact .ofBool b
  | real x => exact .ofReal x
  | text s => exact .ofText s
  | @ofPlain p v h => exact .ofPlain (p := p) (by rw [← fields_ofPlain?, h]; rfl)
  | @unary op f hf v _ ih =>
    obtain ⟨hnone, -⟩ | ⟨f', g, hf', hg, heq⟩ := fields_unary op
    · cases hf.symm.trans hnone
    · obtain rfl := Option.some.inj (hf.symm.trans hf')
      exact heq v ▸ .unary hg ih
  | @binary op f hf a b _ _ iha ihb =>
    obtain ⟨hnone, -⟩ | ⟨f', g, hf', hg, heq⟩ := fields_binary op
    · cases hf.symm.trans hnone
    · obtain rfl := Option.some.inj (hf.symm.trans hf')
      exact heq a b ▸ .binary hg iha ihb
  | step _ up ih => exact fields_step _ up ▸ .step ih up
  | slice _ hi lo ih => exact fields_slice _ hi lo ▸ .slice ih hi lo
  | asLvalue _ ih => exact (fields_mark _).1 ▸ .mark ih true
  | asRvalue _ ih => exact (fields_mark _).2 ▸ .mark ih false

/-- The records that are made are those of the values that are made. -/
theorem fields_made_iff {f : Fields} : f.Made ↔ ∃ v, Made v ∧ v.fields = f := by
  constructor
  · exact exists_value_of_made
  · rintro ⟨v, hv, rfl⟩
    exact fields_made hv

end HdlExpr.Value
