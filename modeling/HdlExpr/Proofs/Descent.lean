import HdlExpr.Proofs.Tracing
import HdlExpr.Proofs.Wrapping

/-!
# Decoding goes down

Decoding goes from a node to its first child until it finds content.  In a tree that was built it
gets there, and what it finds lies below the node where it stops, operands in different parts of
the tree.  So operands are numbered below the node that they belong to, and both engines end
without a limit on how deep they go.
-/

namespace HdlExpr

/-! ## Nodes below a node -/

namespace Tree

variable {t : Tree} {n m c : NodeId}

/-- The node `m` is below `n`, and is another node. -/
def Under (t : Tree) (n m : NodeId) : Prop := m ∈ t.subtree n ∧ m ≠ n

instance : Decidable (t.Under n m) := inferInstanceAs (Decidable (_ ∧ _))

theorem Chain.unique {ns ms : List NodeId} (h : Chain t n ns) (h' : Chain t n ms) : ns = ms := by
  rw [← h.siblings_eq (Nat.le_max_left ns.length ms.length)]
  exact h'.siblings_eq (Nat.le_max_right ns.length ms.length)

namespace Linked

variable (h : t.Linked)

include h

private theorem isNode_of_mem_subtree (hm : m ∈ t.subtree n) : t.isNode m = true := by
  induction n using Nat.strongRecOn with
  | ind n ih =>
    obtain ⟨hn, rfl | ⟨c, hc, hmc⟩⟩ := h.mem_subtree hm
    · exact hn
    · exact ih c (h.lt hc) hmc

private theorem children_of_child (hc : t.child n = 0) : t.children n = [] := by
  have hchain := h.chain n
  rw [hc] at hchain
  exact hchain.unique .nil

private theorem lt_of_under (hm : t.Under n m) : m < n :=
  Nat.lt_of_le_of_ne (h.le_of_mem_subtree hm.1) hm.2

private theorem under_of_mem_subtree (hc : c ∈ t.children n) (hm : m ∈ t.subtree c) :
    t.Under n m := by
  have hlt := Nat.lt_of_le_of_lt (h.le_of_mem_subtree hm) (h.lt hc)
  exact ⟨(Form.children_sublist h n).subset (List.mem_flatMap.mpr ⟨c, hc, hm⟩), Nat.ne_of_lt hlt⟩

private theorem under_of_mem_children (hc : c ∈ t.children n) : t.Under n c := by
  have hn : n ≠ 0 := Nat.ne_zero_of_lt (h.lt hc)
  exact h.under_of_mem_subtree hc (Form.mem_subtree_self h ((h.mem_children hn).mp hc).1)

end Linked

end Tree

/-! ## The loop -/

namespace Form

open HdlExpr.Tree

/-- The loop of decoding, with nothing that would stop it early: from a node that has a child that
is skipped it goes on with the child. -/
inductive EndsIn (t : Tree) : NodeId → Form → Prop
  | missing {n : NodeId} (hn : t.isNode n = false) : EndsIn t n ⟨n, 0, .empty⟩
  | leaf {n : NodeId} (hn : t.isNode n = true) (hc : t.child n = 0) : EndsIn t n (ofLeaf t n)
  | skipped {n : NodeId} {rest : List NodeId} {form : Form}
      (hc : Chain t (t.child n) (t.child n :: rest)) (hs : isSkipped t (t.child n) rest = true)
      (next : EndsIn t (t.child n) form) : EndsIn t n form
  | content {n : NodeId} {rest : List NodeId} (hc : Chain t (t.child n) (t.child n :: rest))
      (hs : isSkipped t (t.child n) rest = false) :
      EndsIn t n ⟨n, (content t (t.child n) rest).1, (content t (t.child n) rest).2⟩

/-- What a form names lies below its node, and only a leaf is its own place.  Operands lie in
different parts of the tree. -/
structure Placed (t : Tree) (form : Form) : Prop where
  site : form.site = 0 ∨ form.site ∈ t.subtree form.node ∧
    (form.site = form.node → t.child form.node = 0)
  operand : ∀ m ∈ form.shape.operands, m = 0 ∨ t.Under form.node m
  apart : form.shape.operands.Pairwise fun a b => (t.subtree a).Disjoint (t.subtree b)

section Loop

variable {t : Tree} (h : t.Linked) {n child : NodeId} {rest : List NodeId} {form : Form}

include h

private theorem endsIn_decode (n : NodeId) : EndsIn t n (decode t n) := by
  induction n using Nat.strongRecOn with
  | ind n ih =>
    cases hn : t.isNode n with
    | false =>
      rw [decode_missing hn]
      exact .missing hn
    | true =>
      have hchain := h.chain n
      have hchild := h.child_eq n
      cases hc : t.children n with
      | nil =>
        rw [decode_leaf hn hc]
        exact .leaf hn (by rw [hchild, hc]; rfl)
      | cons child rest =>
        -- The first child is the one that the node links to.
        obtain rfl : t.child n = child := by rw [hchild, hc]; rfl
        rw [hc] at hchain
        cases hs : isSkipped t (t.child n) rest with
        | true =>
          rw [decode_skipped h hc hs]
          exact .skipped hchain hs (ih _ (h.lt (by simp [hc])))
        | false =>
          rw [decode_content hc hs]
          exact .content hchain hs

theorem EndsIn.eq_decode (hends : EndsIn t n form) : form = decode t n := by
  induction hends with
  | missing hn => rw [decode_missing hn]
  | leaf hn hc => rw [decode_leaf hn (h.children_of_child hc)]
  | @skipped n rest form hc hs next ih => rw [ih, decode_skipped h ((h.chain n).unique hc) hs]
  | @content n rest hc hs => rw [decode_content ((h.chain n).unique hc) hs]

theorem EndsIn.node_eq_or_under (hends : EndsIn t n form) :
    form.node = n ∨ t.Under n form.node := by
  induction hends with
  | missing | content => exact .inl rfl
  | @leaf n => exact .inl (ofLeaf_node t n).1
  | @skipped n rest form hc hs next ih =>
    have hmem : t.child n ∈ t.children n := by simp [(h.chain n).unique hc]
    right
    rcases ih with heq | hunder
    · rw [heq]
      exact h.under_of_mem_children hmem
    · exact h.under_of_mem_subtree hmem hunder.1

/-! ## What a form names -/

private theorem ofLeaf_placed (hn : t.isNode n = true) (hc : t.child n = 0) :
    Placed t (ofLeaf t n) := by
  have hoperands := (ofLeaf_operands t n).2
  obtain ⟨hnode, hsite⟩ := ofLeaf_node t n
  constructor
  · rw [hnode, hsite]
    exact .inr ⟨mem_subtree_self h hn, fun _ => hc⟩
  · simp [hoperands]
  · simp [hoperands]

omit h in
private theorem content_site (t : Tree) (child : NodeId) (rest : List NodeId) :
    (content t child rest).1 = child ∨ (content t child rest).1 = nth rest 0 := by
  unfold content
  dsimp only
  split
  · exact .inr rfl
  · left
    split
    · rfl
    · split
      · rfl
      · split <;> rfl

private theorem content_placed (hc : t.children n = child :: rest)
    (hs : isSkipped t child rest = false) :
    Placed t ⟨n, (content t child rest).1, (content t child rest).2⟩ := by
  have hall : ∀ m ∈ child :: rest, t.Under n m := fun m hm => h.under_of_mem_children (hc ▸ hm)
  obtain ⟨hchild, hrest⟩ := List.forall_mem_cons.mp hall
  have hform := decode_content hc hs
  constructor
  case site =>
    have hsite : ∀ m, t.Under n m → m ∈ t.subtree n ∧ (m = n → t.child n = 0) :=
      fun m hm => ⟨hm.1, fun heq => absurd heq hm.2⟩
    rcases content_site t child rest with heq | heq
    · rw [heq]
      exact .inr (hsite child hchild)
    · rw [heq, nth]
      cases hi : rest[0]? with
      | none => exact .inl rfl
      | some m => exact .inr (hsite m (hrest m (List.mem_of_getElem? hi)))
  case operand =>
    intro m hm
    rcases (content_below h (.inr hchild.1) fun k hk => .inr (hrest k hk).1).2 m hm with h0 | hmn
    · exact .inl h0
    · have hlt : m < n := operand_lt h (by rw [hform]; exact hm) (h.isNode_of_mem_subtree hmn)
      exact .inr ⟨hmn, Nat.ne_of_lt hlt⟩
  case apart =>
    have hnodup := nodup_of_subperm h (operands_subperm h n)
    rw [hform] at hnodup
    exact (List.nodup_flatMap.mp hnodup).2

theorem EndsIn.placed (hends : EndsIn t n form) : Placed t form := by
  induction hends with
  | missing hn => exact ⟨.inl rfl, by simp [Shape.operands], by simp [Shape.operands]⟩
  | leaf hn hc => exact ofLeaf_placed h hn hc
  | skipped hc hs next ih => exact ih
  | @content n rest hc hs => exact content_placed h ((h.chain n).unique hc) hs

private theorem operand_lt_node {m : NodeId} (hm : m ∈ (decode t n).shape.operands) : m < n := by
  have hends := endsIn_decode h n
  have hn : t.isNode n = true := by
    by_contra hnot
    rw [decode_missing (Bool.not_eq_true _ ▸ hnot)] at hm
    simp [Shape.operands] at hm
  rcases (hends.placed h).operand m hm with rfl | hunder
  · exact Nat.pos_of_ne_zero ((isNode_iff t n).mp hn).1
  · have hlt := h.lt_of_under hunder
    rcases hends.node_eq_or_under h with heq | hnode
    · exact heq ▸ hlt
    · exact Nat.lt_trans hlt (h.lt_of_under hnode)

end Loop

end Form

/-! ## Recursion without a limit -/

/-- A recursion ends by itself: `body` has exactly one run, and an engine with a budget gets the
same at every node that is numbered below the budget. -/
def Founded {ρ : Type} (body : (NodeId → ρ) → NodeId → ρ) (engine : Nat → NodeId → ρ) : Prop :=
  ∃ run, (∀ n, run n = body run n) ∧ (∀ other, (∀ n, other n = body other n) → other = run) ∧
    ∀ budget n, n < budget → engine budget n = run n

/-- A run that does what one without a list does, and meets nodes of a subtree alone, none of them
twice. -/
def MeetsOnce {σ α : Type} (t : Tree) (n : NodeId) (x : Traced σ α) (y : StateM σ α) : Prop :=
  ∀ s, ∃ met, x [] s = (((y s).1, met), (y s).2) ∧ (met.filter t.isNode).Nodup ∧
    met.filter t.isNode ⊆ t.subtree n

section Recursion

variable {ρ : Type} {body : (NodeId → ρ) → NodeId → ρ}
  (hbody : ∀ {f g : NodeId → ρ} {n : NodeId}, (∀ m < n, f m = g m) → body f n = body g n)

include hbody

/-- Budgets above the number of a node are all the same. -/
theorem engines_agree {engine engine' : Nat → NodeId → ρ}
    (he : ∀ budget n, engine (budget + 1) n = body (engine budget) n)
    (he' : ∀ budget n, engine' (budget + 1) n = body (engine' budget) n) {budget budget' : Nat}
    {n : NodeId} (hn : n < budget) (hn' : n < budget') : engine budget n = engine' budget' n := by
  induction n using Nat.strongRecOn generalizing budget budget' with
  | ind n ih =>
    obtain ⟨b, rfl⟩ := Nat.exists_eq_succ_of_ne_zero (Nat.ne_zero_of_lt hn)
    obtain ⟨b', rfl⟩ := Nat.exists_eq_succ_of_ne_zero (Nat.ne_zero_of_lt hn')
    rw [he, he']
    apply hbody
    intro m hm
    exact ih m hm (Nat.lt_of_lt_of_le hm (Nat.le_of_lt_succ hn))
      (Nat.lt_of_lt_of_le hm (Nat.le_of_lt_succ hn'))

private theorem founded_of_congr {engine : Nat → NodeId → ρ}
    (he : ∀ budget n, engine (budget + 1) n = body (engine budget) n) : Founded body engine := by
  refine ⟨fun n => engine (n + 1) n, ?_, ?_, ?_⟩
  · intro n
    apply (he n n).trans
    apply hbody
    intro m hm
    exact engines_agree hbody he he hm (Nat.lt_succ_self m)
  · -- A run is an engine that takes no notice of its budget.
    intro other hother
    funext n
    exact @engines_agree ρ body hbody (fun _ => other) engine (fun _ => hother) he (n + 1) (n + 1) n
      (Nat.lt_succ_self n) (Nat.lt_succ_self n)
  · intro budget n hn
    exact engines_agree hbody he he hn (Nat.lt_succ_self n)

end Recursion

theorem Meets.once {σ α : Type} {t : Tree} (h : t.Linked) {n : NodeId} {x : Traced σ α}
    {y : StateM σ α} (hx : Meets t (t.subtree n) x y) : MeetsOnce t n x y := by
  intro s
  obtain ⟨met, hrun, hsub⟩ := hx [] s
  exact ⟨met, hrun, Form.nodup_of_subperm h hsub, hsub.subset⟩

namespace Fold

/-- Folding ends without a limit, whether or not it keeps a list of the nodes, and meets none of
them twice. -/
structure Ends (c : Context) : Prop where
  founded : Founded (turn c) (fold c)
  noting : Founded (fun recur n => note n >>= fun _ => turn c recur n) (foldNoting c)
  once (budget : Nat) (n : NodeId) :
    MeetsOnce c.tree n (foldNoting c budget n) (fold c budget n)

variable {c : Context} (h : c.tree.Linked)

include h

private theorem turn_congr {m : Type → Type} [Monad m] [MonadLiftT Run m] {f g : NodeId → m Operand}
    {n : NodeId} (hfg : ∀ k < n, f k = g k) : turn c f n = turn c g n := by
  have hvisit : visit c f (Form.decode c.tree n) = visit c g (Form.decode c.tree n) := by
    apply visit_related primitives_eq
    · intro name
      rfl
    · intro k hk
      exact hfg k (Form.operand_lt_node h hk)
  simp only [turn, hvisit]

private theorem ends : Ends c where
  founded := founded_of_congr (turn_congr h) (fold_eq_turn c)
  noting := by
    apply founded_of_congr
    · intro f g n hfg
      rw [turn_congr h hfg]
    · intro budget n
      rfl
  once budget n := (foldNoting_meets h budget n).once h

end Fold

namespace Lower

/-- Lowering ends without a limit, whether or not it keeps a list of the nodes, and meets none of
them twice. -/
structure Ends (c : Context) : Prop where
  founded : Founded (turn c) (lowerNode c)
  noting : Founded (fun recur n parent σ => note n >>= fun _ => turn c recur n parent σ)
    (lowerNoting c)
  once (budget : Nat) (n : NodeId) (parent : Nat) (σ : Substitution) :
    MeetsOnce c.tree n (lowerNoting c budget n parent σ) (lowerNode c budget n parent σ)

variable {c : Context} (h : c.tree.Linked)

include h

private theorem turn_congr {m : Type → Type} [Monad m] [MonadLiftT Run m]
    {f g : NodeId → Nat → Substitution → m (Option Ir.Node)} {n : NodeId}
    (hfg : ∀ k < n, f k = g k) : turn c f n = turn c g n := by
  funext parent σ
  have hvisit : visit f (Form.decode c.tree n) parent σ =
      visit g (Form.decode c.tree n) parent σ := by
    apply visit_related primitives_eq
    intro k hk parent σ
    rw [hfg k (Form.operand_lt_node h hk)]
  simp only [turn, hvisit]

private theorem ends : Ends c where
  founded := founded_of_congr (turn_congr h) (lowerNode_eq_turn c)
  noting := by
    apply founded_of_congr
    · intro f g n hfg
      rw [turn_congr h hfg]
    · intro budget n
      rfl
  once budget n parent σ := (lowerNoting_meets h budget n parent σ).once h

end Lower

namespace Form

open HdlExpr.Tree

/-- Decoding ends and goes down.  In every tree that was built, of which one without nodes also
stands for no tree at all, links to siblings end, and from every node the loop of decoding ends in
one form.  Its node is the given one or one below.  What it names beside is no node or lies below
its node, a leaf that is its own place apart.  Operands are numbered below the given node, and
share no node.  Hence both engines end without a limit, and meet no node twice. -/
theorem decoding_descends {t : Tree} (h : t.Built) (n : NodeId) :
    let form := decode t n
    (∀ m, Chain t (t.child m) (t.children m)) ∧ (∀ f, EndsIn t n f ↔ f = form) ∧
      (form.node = n ∨ t.Under n form.node) ∧ Placed t form ∧
      (∀ m ∈ form.shape.operands, m < n) ∧
      (∀ mute limit, Fold.Ends ⟨t, mute, limit⟩) ∧ ∀ limit, Lower.Ends ⟨t, limit⟩ := by
  have hl := h.linked
  have hends := endsIn_decode hl n
  refine ⟨hl.chain, ?_, hends.node_eq_or_under hl, hends.placed hl, ?_, ?_, ?_⟩
  · intro f
    constructor
    · exact EndsIn.eq_decode hl
    · rintro rfl
      exact hends
  · intro m hm
    exact operand_lt_node hl hm
  · intro mute limit
    exact Fold.ends hl
  · intro limit
    exact Lower.ends hl

/-- Three layers down there is a sum of two names. -/
theorem decoding_descends_wrappedSum :
    wrappedSum.Built ∧ decode wrappedSum 10 = ⟨6, 3, .binary 2 .binOpPlus 5⟩ ∧
      EndsIn wrappedSum 10 ⟨6, 3, .binary 2 .binOpPlus 5⟩ ∧ wrappedSum.Under 10 6 ∧
      3 ∈ wrappedSum.subtree 6 ∧ wrappedSum.Under 6 2 ∧ wrappedSum.Under 6 5 ∧
      (wrappedSum.subtree 2).Disjoint (wrappedSum.subtree 5) ∧
      Fold.Ends ⟨wrappedSum, false, 1000⟩ ∧ Lower.Ends ⟨wrappedSum, 1000⟩ := by
  have hsum : sumOfNames.Built :=
    .node (.node (.leaf (.leaf (.node (.leaf (.empty _) _ _) _ _) _ _) _ _) _ _) _ _
  have hbuilt : wrappedSum.Built :=
    .node (.leaf (.setLocation (.node (.node hsum _ _) _ _) _ _ _) _ _) _ _
  have hform : decode wrappedSum 10 = ⟨6, 3, .binary 2 .binOpPlus 5⟩ := by decide +kernel
  obtain ⟨-, hends, hnode, hplaced, -, hfold, hlower⟩ := decoding_descends hbuilt 10
  rw [hform] at hnode hplaced
  refine ⟨hbuilt, hform, (hends _).mpr hform.symm, hnode.resolve_left (by decide), ?_, ?_, ?_, ?_,
    hfold false 1000, hlower 1000⟩
  · exact (hplaced.site.resolve_left (by decide)).1
  · exact (hplaced.operand 2 (by decide)).resolve_left (by decide)
  · exact (hplaced.operand 5 (by decide)).resolve_left (by decide)
  · exact List.rel_of_pairwise_cons hplaced.apart (by decide)

end Form

end HdlExpr
