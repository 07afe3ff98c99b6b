import HdlExpr.Proofs.Reading
import HdlExpr.Proofs.Visiting

/-!
# Nodes that are met

An engine can keep a list of the nodes that it is called on, without doing anything else than
before.  One visit calls it on operands of the node only, and on each at most once.  Operands lie in
different parts of the tree, so no node gets on the list twice.
-/

namespace HdlExpr

/-! ## Lists of nodes -/

abbrev Traced (σ : Type) := StateT (List NodeId) (StateM σ)

def note {σ : Type} (n : NodeId) : Traced σ Unit := modify (· ++ [n])

/-- A run that does what one without a list does.  The nodes that it puts on the list are among
`ns`, each at most as often as there. -/
def Meets {σ α : Type} (t : Tree) (ns : List NodeId) (x : Traced σ α) (y : StateM σ α) : Prop :=
  ∀ met s, ∃ new, x met s = (((y s).1, met ++ new), (y s).2) ∧ (new.filter t.isNode).Subperm ns

section Meets

variable {σ α β : Type} {t : Tree} {ns ms : List NodeId} {x : Traced σ α} {y : StateM σ α}

theorem Meets.mono (h : Meets t ns x y) (hsub : ns.Subperm ms) : Meets t ms x y := by
  intro met s
  obtain ⟨new, hx, hnew⟩ := h met s
  exact ⟨new, hx, hnew.trans hsub⟩

private theorem meets_lift (t : Tree) (y : StateM σ α) : Meets t [] (liftM y) y := by
  intro met s
  refine ⟨[], ?_, by simp⟩
  rw [List.append_nil]
  rfl

theorem Meets.bind {f : α → Traced σ β} {g : α → StateM σ β} (h : Meets t ns x y)
    (hf : ∀ a, Meets t ms (f a) (g a)) : Meets t (ns ++ ms) (x >>= f) (y >>= g) := by
  intro met s
  obtain ⟨new, hx, hnew⟩ := h met s
  obtain ⟨more, hmore, hsub⟩ := hf (y s).1 (met ++ new) (y s).2
  refine ⟨new ++ more, ?_, ?_⟩
  · have hfirst : (x >>= f) met s = f (x met s).1.1 (x met s).1.2 (x met s).2 := rfl
    rw [hfirst, hx, hmore, List.append_assoc]
    rfl
  · rw [List.filter_append]
    exact hnew.append hsub

theorem Meets.noted {n : NodeId} (h : Meets t ns x y)
    (hsub : ([n].filter t.isNode ++ ns).Subperm ms) : Meets t ms (note n >>= fun _ => x) y := by
  intro met s
  obtain ⟨new, hx, hnew⟩ := h (met ++ [n]) s
  refine ⟨[n] ++ new, ?_, ?_⟩
  · have hnote : (note n >>= fun _ => x) met s = x (met ++ [n]) s := rfl
    rw [hnote, hx, List.append_assoc]
  · rw [List.filter_append]
    exact ((List.Subperm.refl _).append hnew).trans hsub

private theorem graded_meets (σ : Type) (t : Tree) :
    Graded fun ns α (x : Traced σ α) (y : StateM σ α) => Meets t (ns.flatMap t.subtree) x y where
  pure a := meets_lift t (pure a)
  bind h hf := by
    rw [List.flatMap_append]
    exact h.bind hf
  weaken h hsub := h.mono (hsub.flatMap t.subtree).subperm

end Meets

namespace Form

variable {t : Tree} (h : t.Linked) (n : NodeId)

include h

omit n in
theorem nodup_of_subperm {n : NodeId} {ns : List NodeId} (hsub : ns.Subperm (t.subtree n)) :
    ns.Nodup := by
  obtain ⟨other, hperm, hsublist⟩ := hsub
  exact hperm.nodup_iff.mp ((h.nodup_subtree n).sublist hsublist)

theorem operands_subperm :
    ((decode t n).shape.operands.flatMap t.subtree).Subperm (t.subtree n) := by
  obtain ⟨ops, -, hsub⟩ := decode_subperm h n
  exact (List.sublist_append_right ops _).subperm.trans hsub

/-- A node and what lies below its operands are different nodes below the node. -/
theorem node_operands_subperm :
    ([n].filter t.isNode ++ (decode t n).shape.operands.flatMap t.subtree).Subperm
      (t.subtree n) := by
  have hbelow := operands_subperm h n
  cases hn : t.isNode n with
  | false => simpa [hn] using hbelow
  | true =>
    have hnot : n ∉ (decode t n).shape.operands.flatMap t.subtree := by
      intro hmem
      obtain ⟨m, hm, hnm⟩ := List.mem_flatMap.mp hmem
      have hlt := operand_lt h hm (h.mem_subtree hnm).1
      exact absurd (h.le_of_mem_subtree hnm) (Nat.not_le.mpr hlt)
    have hsingle : [n].filter t.isNode = [n] := by simp [hn]
    rw [hsingle]
    apply List.subperm_of_subset
    · exact List.nodup_cons.mpr ⟨hnot, nodup_of_subperm h hbelow⟩
    · exact List.cons_subset.mpr ⟨mem_subtree_self h hn, hbelow.subset⟩

private theorem node_subperm : ([n].filter t.isNode ++ []).Subperm (t.subtree n) := by
  apply List.Subperm.trans ?_ (node_operands_subperm h n)
  exact ((List.Sublist.refl _).append (List.nil_sublist _)).subperm

end Form

/-! ## Folding -/

namespace Fold

/-- Decodes a node, visits it and reports its value; `recur` folds the operands. -/
def turn {m : Type → Type} [Monad m] [MonadLiftT Run m] (c : Context)
    (recur : NodeId → m Operand) (n : NodeId) : m Operand := do
  let form := Form.decode c.tree n
  let x ← visit c recur form
  liftM (report (.folded form.shape (c.tree.location form.site) x.value))
  pure x

theorem fold_eq_turn (c : Context) (budget : Nat) (n : NodeId) :
    fold c (budget + 1) n = turn c (fold c budget) n := rfl

/-- Folds a node and puts every node on the list that it is called on. -/
def foldNoting (c : Context) : Nat → NodeId → Traced State Operand
  | 0, n => do
    note n
    liftM (fold c 0 n)
  | budget + 1, n => do
    note n
    turn c (foldNoting c budget) n

private theorem primitives_meets (t : Tree) :
    GradedPrimitives fun ns α (x : Traced State α) (y : Run α) =>
    Meets t (ns.flatMap t.subtree) x y where
  toGraded := graded_meets State t
  read hf := (meets_lift t get).bind fun s => hf s s rfl
  store slot v := meets_lift t (storeStep slot v)

theorem foldNoting_meets {c : Context} (h : c.tree.Linked) (budget : Nat) (n : NodeId) :
    Meets c.tree (c.tree.subtree n) (foldNoting c budget n) (fold c budget n) := by
  induction budget generalizing n with
  | zero => exact (meets_lift c.tree _).noted (Form.node_subperm h n)
  | succ budget ih =>
    apply Meets.noted ?_ (Form.node_operands_subperm h n)
    have hvisit := visit_graded (primitives_meets c.tree) (by simpa using ih)
      (Form.decode c.tree n) fun name => meets_lift c.tree (unresolved c _ name)
    apply (graded_meets State c.tree).last hvisit
    intro x
    exact (meets_lift c.tree _).bind fun _ => meets_lift c.tree (pure x)

end Fold

/-! ## Lowering -/

namespace Lower

open Ir (Node)

/-- Decodes a node, visits it and reports what it is lowered to; `recur` lowers the operands. -/
def turn {m : Type → Type} [Monad m] [MonadLiftT Run m] (c : Context)
    (recur : NodeId → Nat → Substitution → m (Option Node)) (n : NodeId) (parent : Nat)
    (σ : Substitution) : m (Option Node) := do
  let form := Form.decode c.tree n
  let node ← visit recur form parent σ
  liftM (report (.lowered form.shape (c.tree.location form.site) (node.map (·.kind))))
  pure node

theorem lowerNode_eq_turn (c : Context) (budget : Nat) (n : NodeId) :
    lowerNode c (budget + 1) n = turn c (lowerNode c budget) n := rfl

/-- Lowers a node and puts every node on the list that it is called on. -/
def lowerNoting (c : Context) : Nat → NodeId → Nat → Substitution → Traced State (Option Node)
  | 0, n, parent, σ => do
    note n
    liftM (lowerNode c 0 n parent σ)
  | budget + 1, n, parent, σ => do
    note n
    turn c (lowerNoting c budget) n parent σ

private theorem primitives_meets (t : Tree) :
    GradedPrimitives fun ns α (x : Traced State α) (y : Run α) =>
    Meets t (ns.flatMap t.subtree) x y where
  toGraded := graded_meets State t
  issue k := meets_lift t (issue k)
  literal tag text parent := meets_lift t (visitLiteral tag text parent)
  plainName name parent σ := meets_lift t (visitPlainName name parent σ)

theorem lowerNoting_meets {c : Context} (h : c.tree.Linked) (budget : Nat) (n : NodeId)
    (parent : Nat) (σ : Substitution) :
    Meets c.tree (c.tree.subtree n) (lowerNoting c budget n parent σ)
      (lowerNode c budget n parent σ) := by
  induction budget generalizing n parent σ with
  | zero => exact (meets_lift c.tree _).noted (Form.node_subperm h n)
  | succ budget ih =>
    apply Meets.noted ?_ (Form.node_operands_subperm h n)
    have hvisit := visit_graded (primitives_meets c.tree) (by simpa using ih)
      (Form.decode c.tree n) parent σ
    apply (graded_meets State c.tree).last hvisit
    intro node
    exact (meets_lift c.tree _).bind fun _ => meets_lift c.tree (pure node)

end Lower

end HdlExpr
