import HdlExpr.Fold
import HdlExpr.Lower
import HdlExpr.Proofs.Form

/-!
# Visiting in two ways

A node is visited in the same way whatever is done for its operands.  So when two ways to treat the
operands are related, by a relation that goes through sequences, the two ways to visit the node are
related too.  The relation may depend on which nodes are treated: a visit treats no other node than
the operands, and each of them once at most.
-/

namespace HdlExpr

/-- A relation between computations that goes through sequences. -/
structure Congruence {m m' : Type → Type} [Monad m] [Monad m']
    (R : (α : Type) → m α → m' α → Prop) : Prop where
  pure {α : Type} (a : α) : R α (pure a) (pure a)
  bind {α β : Type} {x : m α} {y : m' α} {f : α → m β} {g : α → m' β} (h : R α x y)
    (hf : ∀ a, R β (f a) (g a)) : R β (x >>= f) (y >>= g)

/-- A relation between computations that treat the nodes of a list, or some of them.  It goes
through sequences, where the lists are put together. -/
structure Graded {m m' : Type → Type} [Monad m] [Monad m']
    (R : List NodeId → (α : Type) → m α → m' α → Prop) : Prop where
  pure {α : Type} (a : α) : R [] α (pure a) (pure a)
  bind {ns ms : List NodeId} {α β : Type} {x : m α} {y : m' α} {f : α → m β} {g : α → m' β}
    (h : R ns α x y) (hf : ∀ a, R ms β (f a) (g a)) : R (ns ++ ms) β (x >>= f) (y >>= g)
  weaken {ns ms : List NodeId} {α : Type} {x : m α} {y : m' α} (h : R ns α x y)
    (hsub : ns.Sublist ms) : R ms α x y

section Graded

variable {m m' : Type → Type} [Monad m] [Monad m']

theorem Congruence.graded {R : (α : Type) → m α → m' α → Prop} (h : Congruence R)
    (P : NodeId → Prop) : Graded fun ns α x y => (∀ n ∈ ns, P n) → R α x y where
  pure a _ := h.pure a
  bind hx hf hP := by
    obtain ⟨hfirst, hrest⟩ := List.forall_mem_append.mp hP
    exact h.bind (hx hfirst) fun a => hf a hrest
  weaken hx hsub hP := hx fun n hn => hP n (hsub.subset hn)

namespace Graded

variable {R : List NodeId → (α : Type) → m α → m' α → Prop} (h : Graded R) {ns : List NodeId}
  {α β : Type} {x : m α} {y : m' α} {f : α → m β} {g : α → m' β}

include h

private theorem pure_of (ns : List NodeId) (a : α) : R ns α (Pure.pure a) (Pure.pure a) :=
  h.weaken (h.pure a) (List.nil_sublist ns)

private theorem next (hx : R [] α x y) (hf : ∀ a, R ns β (f a) (g a)) :
    R ns β (x >>= f) (y >>= g) :=
  h.bind hx hf

theorem last (hx : R ns α x y) (hf : ∀ a, R [] β (f a) (g a)) : R ns β (x >>= f) (y >>= g) := by
  simpa using h.bind hx hf

end Graded

end Graded

/-! A computation may keep something of its own, such as how deeply it nests. -/

section Returns

variable {τ σ α : Type}

/-- A computation that does what one without a state of its own does, and gives that state back. -/
def Returns (kept : τ) (x : StateT τ (StateM σ) α) (y : StateM σ α) : Prop :=
  ∀ s, x kept s = (((y s).1, kept), (y s).2)

theorem returns_lift {kept : τ} (x : StateM σ α) :
    Returns kept (liftM x : StateT τ (StateM σ) α) x :=
  fun _ => rfl

theorem congruence_returns (σ : Type) (kept : τ) :
    Congruence fun α (x : StateT τ (StateM σ) α) (y : StateM σ α) => Returns kept x y where
  pure a _ := rfl
  bind := by
    intro α β x y f g h hf s
    have hfirst : (x >>= f) kept s = f (x kept s).1.1 (x kept s).1.2 (x kept s).2 := rfl
    rw [hfirst, h s]
    exact hf _ _

end Returns

namespace Fold

variable {m m' : Type → Type} [Monad m] [Monad m'] [MonadLiftT Run m] [MonadLiftT Run m']

/-- What a visit does besides folding operands.  Of the state it reads the scope alone. -/
structure Primitives (R : (α : Type) → m α → m' α → Prop) : Prop extends Congruence R where
  read {α : Type} {f : State → m α} {g : State → m' α}
    (hf : ∀ s t, s.scope = t.scope → R α (f s) (g t)) :
    R α (liftM (get : Run State) >>= f) (liftM (get : Run State) >>= g)
  store (slot : Option Nat) (v : Value) :
    R Unit (liftM (storeStep slot v)) (liftM (storeStep slot v))

structure GradedPrimitives (R : List NodeId → (α : Type) → m α → m' α → Prop) : Prop
    extends Graded R where
  read {ns : List NodeId} {α : Type} {f : State → m α} {g : State → m' α}
    (hf : ∀ s t, s.scope = t.scope → R ns α (f s) (g t)) :
    R ns α (liftM (get : Run State) >>= f) (liftM (get : Run State) >>= g)
  store (slot : Option Nat) (v : Value) :
    R [] Unit (liftM (storeStep slot v)) (liftM (storeStep slot v))

/-- Reading is related when the states that are read are the same. -/
theorem read_of_get {R : (α : Type) → m α → m' α → Prop} (h : Congruence R)
    (hget : R State (liftM (get : Run State)) (liftM (get : Run State))) {α : Type}
    {f : State → m α} {g : State → m' α} (hf : ∀ s t, s.scope = t.scope → R α (f s) (g t)) :
    R α (liftM (get : Run State) >>= f) (liftM (get : Run State) >>= g) :=
  h.bind hget fun s => hf s s rfl

theorem Primitives.graded {R : (α : Type) → m α → m' α → Prop} (h : Primitives R)
    (P : NodeId → Prop) : GradedPrimitives fun ns α x y => (∀ n ∈ ns, P n) → R α x y where
  toGraded := h.toCongruence.graded P
  read hf hP := h.read fun s t hst => hf s t hst hP
  store slot v _ := h.store slot v

section Visit

variable {R : List NodeId → (α : Type) → m α → m' α → Prop} (h : GradedPrimitives R)
  {recur : NodeId → m Operand} {recur' : NodeId → m' Operand}
  (hrec : ∀ n, R [n] Operand (recur n) (recur' n))

include h hrec

private theorem visitSelect_graded (v : Value) (select : Select) :
    R select.bounds Value (visitSelect recur v select) (visitSelect recur' v select) := by
  cases select with
  | none => exact h.pure v
  | bit index => exact h.last (hrec index) fun _ => h.pure _
  | part left right =>
    exact h.bind (hrec left) fun _ => h.last (hrec right) fun _ => h.pure _
  | indexed base direction width =>
    exact h.bind (hrec base) fun _ => h.last (hrec width) fun _ => h.pure _

private theorem visitName_graded {c c' : Context} {site : NodeId} (ident : Ident)
    (hsite : ∀ name, R [] Unit (liftM (unresolved c site name)) (liftM (unresolved c' site name))) :
    R ident.select.bounds Operand (visitName c recur site ident)
      (visitName c' recur' site ident) := by
  unfold visitName
  refine h.read fun s t hst => ?_
  rw [hst]
  split
  · exact h.next (hsite ident.name) fun _ => h.pure_of _ _
  · refine h.read fun s' t' hst' => ?_
    rw [hst']
    split
    · dsimp only
      split <;> exact h.pure_of _ _
    · exact h.last (visitSelect_graded h hrec _ _) fun _ => h.pure _

private theorem visitUnary_graded (op : Tag) (operand : NodeId) :
    R [operand] Operand (visitUnary recur op operand) (visitUnary recur' op operand) := by
  unfold visitUnary
  split
  · exact h.pure_of _ _
  · exact h.pure_of _ _
  · exact h.pure_of _ _
  · refine h.last (hrec operand) fun x => ?_
    split
    · exact h.next (h.store _ _) fun _ => h.pure _
    · exact h.pure _
    · exact h.pure _

private theorem visitBinary_graded (left : NodeId) (op : Tag) (right : NodeId) :
    R [left, right] Operand (visitBinary recur left op right)
      (visitBinary recur' left op right) := by
  refine h.bind (hrec left) fun x => ?_
  split
  · exact h.pure_of _ _
  · exact h.last (hrec right) fun y => h.pure _

private theorem visitLvalue_graded (operand : NodeId) (op : Option Tag) :
    R [operand] Operand (visitLvalue recur operand op) (visitLvalue recur' operand op) := by
  refine h.last (hrec operand) fun x => ?_
  split
  · exact h.pure _
  · split
    · exact h.pure _
    · exact h.next (h.store _ _) fun _ => h.pure _

/-- One visit folds operands only, and each of them once at most. -/
theorem visit_graded {c c' : Context} (form : Form)
    (hsite : ∀ name,
      R [] Unit (liftM (unresolved c form.site name)) (liftM (unresolved c' form.site name))) :
    R form.shape.operands Operand (visit c recur form) (visit c' recur' form) := by
  obtain ⟨node, site, shape⟩ := form
  cases shape with
  | empty | events | literal | call | concat => exact h.pure_of _ _
  | unary op operand => exact visitUnary_graded h hrec op operand
  | binary left op right => exact visitBinary_graded h hrec left op right
  | name ident => exact visitName_graded h hrec ident hsite
  | lvalue operand op => exact visitLvalue_graded h hrec operand op

end Visit

theorem visit_related {R : (α : Type) → m α → m' α → Prop} (h : Primitives R)
    {recur : NodeId → m Operand} {recur' : NodeId → m' Operand} {c c' : Context} (form : Form)
    (hsite : ∀ name,
      R Unit (liftM (unresolved c form.site name)) (liftM (unresolved c' form.site name)))
    (hrec : ∀ n ∈ form.shape.operands, R Operand (recur n) (recur' n)) :
    R Operand (visit c recur form) (visit c' recur' form) := by
  have hgraded := h.graded fun n => R Operand (recur n) (recur' n)
  exact visit_graded hgraded (fun n hn => hn n List.mem_cons_self) form
    (fun name _ => hsite name) hrec

end Fold

namespace Lower

open Ir (Node Kind Opcode Direction Ref Factory)

variable {m m' : Type → Type} [Monad m] [Monad m'] [MonadLiftT Run m] [MonadLiftT Run m']

/-- What a visit does besides lowering operands. -/
structure Primitives (R : (α : Type) → m α → m' α → Prop) : Prop extends Congruence R where
  issue (k : Kind) : R Nat (liftM (issue k)) (liftM (issue k))
  literal (tag : Tag) (text : String) (parent : Nat) :
    R (Option Node) (liftM (visitLiteral tag text parent)) (liftM (visitLiteral tag text parent))
  plainName (name : String) (parent : Nat) (σ : Substitution) :
    R (Option Node) (liftM (visitPlainName name parent σ)) (liftM (visitPlainName name parent σ))

structure GradedPrimitives (R : List NodeId → (α : Type) → m α → m' α → Prop) : Prop
    extends Graded R where
  issue (k : Kind) : R [] Nat (liftM (issue k)) (liftM (issue k))
  literal (tag : Tag) (text : String) (parent : Nat) :
    R [] (Option Node) (liftM (visitLiteral tag text parent)) (liftM (visitLiteral tag text parent))
  plainName (name : String) (parent : Nat) (σ : Substitution) :
    R [] (Option Node) (liftM (visitPlainName name parent σ))
      (liftM (visitPlainName name parent σ))

theorem Primitives.graded {R : (α : Type) → m α → m' α → Prop} (h : Primitives R)
    (P : NodeId → Prop) : GradedPrimitives fun ns α x y => (∀ n ∈ ns, P n) → R α x y where
  toGraded := h.toCongruence.graded P
  issue k _ := h.issue k
  literal tag text parent _ := h.literal tag text parent
  plainName name parent σ _ := h.plainName name parent σ

section Visit

variable {R : List NodeId → (α : Type) → m α → m' α → Prop} (h : GradedPrimitives R)
  {recur : NodeId → Nat → Substitution → m (Option Node)}
  {recur' : NodeId → Nat → Substitution → m' (Option Node)}
  (hrec : ∀ n parent σ, R [n] (Option Node) (recur n parent σ) (recur' n parent σ))

include h hrec

private theorem visitOperands_graded (parent : Nat) (σ : Substitution) (ns : List NodeId) :
    R ns (List Node) (visitOperands recur parent σ ns) (visitOperands recur' parent σ ns) := by
  induction ns with
  | nil => exact h.pure _
  | cons n ns ih =>
    refine h.bind (hrec n parent σ) fun first => ?_
    exact h.last ih fun others => h.pure _

private theorem visitOperation_graded (op : Opcode) (ns : List NodeId) (parent : Nat)
    (σ : Substitution) : R ns (Option Node) (visitOperation recur op ns parent σ)
      (visitOperation recur' op ns parent σ) := by
  refine h.next (h.issue _) fun id => ?_
  exact h.last (visitOperands_graded h hrec id σ ns) fun _ => h.pure _

private theorem visitName_graded (ident : Ident) (parent : Nat) (σ : Substitution) :
    R ident.select.bounds (Option Node) (visitName recur ident parent σ)
      (visitName recur' ident parent σ) := by
  unfold visitName
  cases ident.select with
  | none => exact h.plainName _ parent σ
  | bit index =>
    refine h.next (h.issue _) fun id => ?_
    exact h.last (hrec index id .none) fun _ => h.pure _
  | part left right =>
    refine h.next (h.issue _) fun object => h.next (h.issue _) fun id => ?_
    exact h.bind (hrec left id .none) fun _ => h.last (hrec right id .none) fun _ => h.pure _
  | indexed base direction width =>
    refine h.next (h.issue _) fun object => h.next (h.issue _) fun id => ?_
    exact h.bind (hrec base id .none) fun _ => h.last (hrec width id .none) fun _ => h.pure _

/-- One visit lowers operands only, and each of them once at most. -/
theorem visit_graded (form : Form) (parent : Nat) (σ : Substitution) :
    R form.shape.operands (Option Node) (visit recur form parent σ)
      (visit recur' form parent σ) := by
  obtain ⟨node, site, shape⟩ := form
  cases shape with
  | empty => exact h.pure _
  | unary op operand =>
    simp only [visit]
    split
    · exact h.pure_of _ _
    · exact visitOperation_graded h hrec _ _ parent σ
  | binary left op right => exact visitOperation_graded h hrec _ _ parent σ
  | events first rest =>
    cases rest with
    | nil => exact hrec first parent σ
    | cons item rest => exact visitOperation_graded h hrec _ _ parent σ
  | literal tag text => exact h.literal tag text parent
  | name ident => exact visitName_graded h hrec ident parent σ
  | lvalue operand op =>
    cases op with
    | none => exact hrec operand parent σ
    | some op => exact visitOperation_graded h hrec _ _ parent σ
  | call function => exact h.next (h.issue _) fun _ => h.pure _
  | concat tag operands => exact visitOperation_graded h hrec _ _ parent .none

end Visit

theorem visit_related {R : (α : Type) → m α → m' α → Prop} (h : Primitives R)
    {recur : NodeId → Nat → Substitution → m (Option Node)}
    {recur' : NodeId → Nat → Substitution → m' (Option Node)} (form : Form) (parent : Nat)
    (σ : Substitution)
    (hrec : ∀ n ∈ form.shape.operands, ∀ parent σ,
      R (Option Node) (recur n parent σ) (recur' n parent σ)) :
    R (Option Node) (visit recur form parent σ) (visit recur' form parent σ) := by
  have hgraded := h.graded fun n => ∀ parent σ,
    R (Option Node) (recur n parent σ) (recur' n parent σ)
  exact visit_graded hgraded (fun n parent σ hn => hn n List.mem_cons_self parent σ) form parent σ
    hrec

end Lower

end HdlExpr
