import Mathlib.Data.List.Forall2

/-!
# Runs

Both engines thread a state through their operands.  A run is looked at through the result and the
state that it gives from a state, and a list of runs one after the other through a relation that
holds for each of them.
-/

namespace HdlExpr.Run

variable {σ α β : Type}

@[simp] theorem pure_apply (a : α) (s : σ) : (pure a : StateM σ α) s = (a, s) := rfl

@[simp] theorem bind_apply (x : StateM σ α) (f : α → StateM σ β) (s : σ) :
    (x >>= f) s = f (x s).1 (x s).2 := rfl

@[simp] theorem map_apply (f : α → β) (x : StateM σ α) (s : σ) :
    (f <$> x) s = (f (x s).1, (x s).2) := rfl

@[simp] theorem get_apply (s : σ) : (get : StateM σ σ) s = (s, s) := rfl

@[simp] theorem modify_apply (f : σ → σ) (s : σ) : (modify f : StateM σ PUnit) s = (⟨⟩, f s) := rfl

theorem mapM_keeps (I : σ → Prop) (f : α → StateM σ β) (keeps : ∀ a s, I s → I (f a s).2)
    (as : List α) (s : σ) (hs : I s) : I (as.mapM f s).2 := by
  induction as generalizing s with
  | nil => exact hs
  | cons a as ih =>
    rw [List.mapM_cons]
    exact ih (f a s).2 (keeps a s hs)

/-- Runs that give related results for each element of a list, in related states, do so for the
list. -/
theorem mapM_related {τ γ : Type} (R : σ → τ → Prop) (Q : β → γ → Prop) (f : α → StateM σ β)
    (f' : α → StateM τ γ)
    (step : ∀ a s t, R s t → Q (f a s).1 (f' a t).1 ∧ R (f a s).2 (f' a t).2)
    (as : List α) (s : σ) (t : τ) (h : R s t) :
    List.Forall₂ Q (as.mapM f s).1 (as.mapM f' t).1 ∧ R (as.mapM f s).2 (as.mapM f' t).2 := by
  induction as generalizing s t with
  | nil => exact ⟨.nil, h⟩
  | cons a as ih =>
    obtain ⟨ha, hstep⟩ := step a s t h
    obtain ⟨has, hrun⟩ := ih _ _ hstep
    rw [List.mapM_cons, List.mapM_cons]
    exact ⟨.cons ha has, hrun⟩

/-- Runs that give the same results for each element of a list, in related states, do so for the
list. -/
theorem mapM_simulates {τ : Type} (R : σ → τ → Prop) (f : α → StateM σ β) (f' : α → StateM τ β)
    (step : ∀ a s t, R s t → (f a s).1 = (f' a t).1 ∧ R (f a s).2 (f' a t).2)
    (as : List α) (s : σ) (t : τ) (h : R s t) :
    (as.mapM f s).1 = (as.mapM f' t).1 ∧ R (as.mapM f s).2 (as.mapM f' t).2 := by
  obtain ⟨hs, hrun⟩ := mapM_related R Eq f f' step as s t h
  exact ⟨List.forall₂_eq_eq_eq ▸ hs, hrun⟩

/-- Runs over a list, each from the state that the one before it gives. -/
inductive InTurn (P : α → σ → β → σ → Prop) : List α → σ → List β → σ → Prop
  | nil (s : σ) : InTurn P [] s [] s
  | cons {a : α} {as : List α} {b : β} {bs : List β} {s s₁ s₂ : σ}
      (first : P a s b s₁) (rest : InTurn P as s₁ bs s₂) : InTurn P (a :: as) s (b :: bs) s₂

theorem mapM_inTurn {P : α → σ → β → σ → Prop} (I : σ → Prop) (f : α → StateM σ β)
    (keeps : ∀ a s, I s → I (f a s).2) (h : ∀ a s, I s → P a s (f a s).1 (f a s).2)
    (as : List α) (s : σ) (hs : I s) : InTurn P as s (as.mapM f s).1 (as.mapM f s).2 := by
  induction as generalizing s with
  | nil => exact .nil s
  | cons a as ih =>
    rw [List.mapM_cons]
    exact .cons (h a s hs) (ih (f a s).2 (keeps a s hs))

theorem InTurn.length_eq {P : α → σ → β → σ → Prop} {as : List α} {bs : List β} {s s' : σ}
    (h : InTurn P as s bs s') : bs.length = as.length := by
  induction h with
  | nil => rfl
  | cons _ _ ih => rw [List.length_cons, List.length_cons, ih]

theorem InTurn.one {P : α → σ → β → σ → Prop} {a : α} {bs : List β} {s s' : σ}
    (h : InTurn P [a] s bs s') : ∃ b, bs = [b] ∧ P a s b s' := by
  cases h with | cons first rest =>
  cases rest
  exact ⟨_, rfl, first⟩

theorem InTurn.two {P : α → σ → β → σ → Prop} {a a' : α} {bs : List β} {s s' : σ}
    (h : InTurn P [a, a'] s bs s') : ∃ b b' s₁, bs = [b, b'] ∧ P a s b s₁ ∧ P a' s₁ b' s' := by
  cases h with | cons first rest =>
  obtain ⟨b', rfl, last⟩ := rest.one
  exact ⟨_, b', _, rfl, first, last⟩

/-- What follows from the relation for each element of the list, and for a part of the state,
follows for the runs. -/
theorem InTurn.project {τ : Type} {P : α → σ → β → σ → Prop} {Q : α → τ → β → τ → Prop}
    {as : List α} {bs : List β} {s s' : σ} (part : σ → τ) (h : InTurn P as s bs s')
    (imp : ∀ a ∈ as, ∀ s b s', P a s b s' → Q a (part s) b (part s')) :
    InTurn Q as (part s) bs (part s') := by
  induction h with
  | nil s => exact .nil (part s)
  | cons first _ ih =>
    exact .cons (imp _ (by simp) _ _ _ first) (ih fun a ha => imp a (List.mem_cons_of_mem _ ha))

theorem InTurn.imp {P Q : α → σ → β → σ → Prop} {as : List α} {bs : List β} {s s' : σ}
    (h : InTurn P as s bs s') (imp : ∀ a ∈ as, ∀ s b s', P a s b s' → Q a s b s') :
    InTurn Q as s bs s' :=
  h.project id imp

end HdlExpr.Run
