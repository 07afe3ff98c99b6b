import Mathlib.Data.List.ReduceOption
import Mathlib.Order.Bounds.Basic
import HdlExpr.Proofs.Form
import HdlExpr.Proofs.Run
import HdlExpr.Proofs.Visiting

/-!
# Lists of events

A list of events goes by the places of its children: operands have the even ones and the operators
between them the odd ones, as far as operators are found there.  One operand is lowered as itself,
and several to one operation, that of the last operator.
-/

namespace HdlExpr

open Run

namespace Form

/-! ## Places -/

/-- The first `k` odd places hold operators that join events. -/
def Joined (t : Tree) (cs : List NodeId) (k : Nat) : Prop :=
  ∀ i < k, ∃ op, cs[2 * i + 1]? = some op ∧ (t.tag op).combinator?.isSome = true

private theorem joined_zero (t : Tree) (cs : List NodeId) : Joined t cs 0 := nofun

private theorem joined_succ (t : Tree) (first op : NodeId) (rest : List NodeId) (k : Nat) :
    Joined t (first :: op :: rest) (k + 1) ↔
      (t.tag op).combinator?.isSome = true ∧ Joined t rest k := by
  constructor
  · intro h
    obtain ⟨op', hop, hc⟩ := h 0 (Nat.succ_pos k)
    obtain rfl : op = op' := by simpa using hop
    refine ⟨hc, fun i hi => ?_⟩
    simpa [Nat.mul_add] using h (i + 1) (Nat.succ_lt_succ hi)
  · rintro ⟨hc, h⟩ i hi
    cases i with
    | zero => exact ⟨op, by simp, hc⟩
    | succ i => simpa [Nat.mul_add] using h i (Nat.lt_of_succ_lt_succ hi)

/-- Without an operator behind the first operand there is none further on. -/
theorem joined_eq_zero {t : Tree} {cs : List NodeId} {k : Nat}
    (hc : ∀ op, cs[1]? = some op → (t.tag op).combinator?.isSome = false) (h : Joined t cs k) :
    k ≤ 0 := by
  by_contra hk
  obtain ⟨op, hop, hsome⟩ := h 0 (Nat.lt_of_not_le hk)
  rw [hc op hop] at hsome
  cases hsome

/-- A list of events takes as many operators as there are on the odd places from the first on. -/
theorem eventList_greatest (t : Tree) (first : NodeId) (ns : List NodeId) :
    IsGreatest {k | Joined t (first :: ns) k} (eventList t ns).length := by
  fun_induction eventList t ns generalizing first with
  | case1 op operand rest hop ih =>
    obtain ⟨hmem, hbound⟩ := ih operand
    refine ⟨(joined_succ t first op _ _).mpr ⟨hop, hmem⟩, fun k hk => ?_⟩
    cases k with
    | zero => exact Nat.zero_le _
    | succ k => exact Nat.succ_le_succ (hbound ((joined_succ t first op _ k).mp hk).2)
  | case2 op operand rest hop =>
    refine ⟨joined_zero _ _, fun k hk => joined_eq_zero ?_ hk⟩
    simpa using hop
  | case3 op hop =>
    refine ⟨(joined_succ t first op _ 0).mpr ⟨hop, joined_zero _ _⟩, fun k hk => ?_⟩
    cases k with
    | zero => exact Nat.zero_le _
    | succ k =>
      have hnone := joined_eq_zero (by simp) ((joined_succ t first op _ k).mp hk).2
      exact Nat.succ_le_succ hnone
  | case4 op hop =>
    refine ⟨joined_zero _ _, fun k hk => joined_eq_zero ?_ hk⟩
    simpa using hop
  | case5 => exact ⟨joined_zero _ _, fun k hk => joined_eq_zero (by simp) hk⟩

private theorem nth_cons_succ (n : NodeId) (ns : List NodeId) (i : Nat) :
    nth (n :: ns) (i + 1) = nth ns i := by
  simp [nth]

/-- The operators are on the odd places, and behind each of them its operand, or nothing. -/
theorem eventList_places (t : Tree) (first : NodeId) (ns : List NodeId) :
    eventList t ns = (List.range (eventList t ns).length).map fun i =>
      (t.tag (nth (first :: ns) (2 * i + 1)), nth (first :: ns) (2 * (i + 1))) := by
  fun_induction eventList t ns generalizing first with
  | case1 op operand rest hop ih =>
    rw [List.length_cons, List.range_succ_eq_map, List.map_cons, List.map_map]
    congr 1
    refine (ih operand).trans (List.map_congr_left fun i _ => ?_)
    simp only [Function.comp_apply, Nat.mul_add, Nat.succ_eq_add_one, Nat.mul_one, nth_cons_succ]
  | case2 | case3 | case4 | case5 => rfl

/-- A node with an event as its first child is a list of events over all its children. -/
theorem decode_events {t : Tree} (h : t.Linked) {n : NodeId}
    (hfirst : t.tag (t.child n) = .eventExpression) :
    ∃ rest, t.children n = t.child n :: rest ∧
      decode t n = ⟨n, t.child n, .events (t.child n) (eventList t rest)⟩ := by
  have hvalid : t.tag (t.child n) ≠ .invalid := by simp [hfirst]
  obtain ⟨rest, hc⟩ := exists_children h hvalid
  have hskip : isSkipped t (t.child n) rest = false := by
    simp [isSkipped, hfirst, Tag.isWrapper, Tag.isOperandChain]
  have hcontent : content t (t.child n) rest =
      (t.child n, .events (t.child n) (eventList t rest)) := by
    simp [content, hfirst, Tag.isOperandChain, Tag.unaryOp?, Tag.isLiteral, Tag.scalarBit?]
  refine ⟨rest, hc, ?_⟩
  rw [decode_content hc hskip, hcontent]

theorem Joined.le_length {t : Tree} {cs : List NodeId} {k : Nat} (h : Joined t cs k) :
    2 * k ≤ cs.length := by
  cases k with
  | zero => exact Nat.zero_le _
  | succ k =>
    obtain ⟨op, hop, -⟩ := h k (Nat.lt_succ_self k)
    obtain ⟨hlt, -⟩ := List.getElem?_eq_some_iff.mp hop
    omega

theorem Joined.operator {t : Tree} {cs : List NodeId} {k : Nat} (h : Joined t cs k) {i : Nat}
    (hi : i < k) : (t.tag (nth cs (2 * i + 1))).combinator?.isSome = true := by
  obtain ⟨op, hop, hsome⟩ := h i hi
  rwa [nth, hop, Option.getD_some]

private theorem nth_eq_zero_iff {ns : List NodeId} (h0 : 0 ∉ ns) (i : Nat) :
    nth ns i = 0 ↔ ns.length ≤ i := by
  rw [nth, ← List.getElem?_eq_none_iff]
  cases hi : ns[i]? with
  | none => simp
  | some n =>
    have hn : n ≠ 0 := fun he => h0 (he ▸ List.mem_of_getElem? hi)
    simpa using hn

/-- Up to the last operator no operand is missing, and behind it one is when the list ends there. -/
theorem Joined.operand_eq_zero_iff {t : Tree} (h : t.Linked) {n : NodeId} {k : Nat}
    (hk : Joined t (t.children n) k) {i : Nat} (hi : i ≤ k) :
    nth (t.children n) (2 * i) = 0 ↔ i = k ∧ (t.children n).length = 2 * k := by
  have h0 : 0 ∉ t.children n := by
    intro hmem
    have hnode := ((h.mem_children (Nat.ne_zero_of_lt (h.lt hmem))).mp hmem).1
    cases hnode
  have hlength := hk.le_length
  rw [nth_eq_zero_iff h0]
  omega

end Form

namespace Lower

open Ir (Node Kind Opcode Factory)

/-! ## What a lowering depends on -/

/-- Two runs that give the same and make the same nodes, whatever was reported before. -/
def SameMaking (α : Type) (x y : Run α) : Prop :=
  ∀ s s' : State, s.factory = s'.factory →
    (x s).1 = (y s').1 ∧ (x s).2.factory = (y s').2.factory

private theorem congruence_sameMaking : Congruence SameMaking where
  pure _ := fun _ _ hs => ⟨rfl, hs⟩
  bind := by
    intro α β x y f g h hf s s' hs
    obtain ⟨hvalue, hfactory⟩ := h s s' hs
    rw [bind_apply, bind_apply, hvalue]
    exact hf _ _ _ hfactory

private theorem report_sameMaking (r r' : Report) : SameMaking Unit (report r) (report r') :=
  fun _ _ hs => ⟨rfl, hs⟩

private theorem issue_sameMaking (k : Kind) : SameMaking Nat (issue k) (issue k) := by
  intro s s' hs
  simp only [issue, hs]
  exact ⟨trivial, trivial⟩

private theorem primitives_sameMaking : Primitives SameMaking where
  toCongruence := congruence_sameMaking
  issue := issue_sameMaking
  literal tag text parent := by
    unfold visitLiteral
    split
    · exact congruence_sameMaking.pure _
    · exact congruence_sameMaking.bind (issue_sameMaking _) fun _ => congruence_sameMaking.pure _
  plainName name parent σ := by
    unfold visitPlainName
    split
    · refine congruence_sameMaking.bind (report_sameMaking _ _) fun _ => ?_
      exact congruence_sameMaking.bind (issue_sameMaking _) fun _ => congruence_sameMaking.pure _
    · exact congruence_sameMaking.bind (issue_sameMaking _) fun _ => congruence_sameMaking.pure _

private theorem warn_sameMaking (c c' : Context) (n : NodeId) :
    SameMaking Unit (warn c n) (warn c' n) := by
  intro s s' hs
  cases hw : s.warned <;> cases hw' : s'.warned <;> simp [warn, report, hw, hw', hs]

private theorem lowerNode_sameMaking (t : Tree) (limit limit' budget : Nat) (n : NodeId)
    (parent : Nat) (σ : Substitution) :
    SameMaking (Option Node) (lowerNode ⟨t, limit⟩ budget n parent σ)
      (lowerNode ⟨t, limit'⟩ budget n parent σ) := by
  have hcongr := congruence_sameMaking
  induction budget generalizing n parent σ with
  | zero => exact hcongr.bind (warn_sameMaking _ _ n) fun _ => hcongr.pure _
  | succ budget ih =>
    have hvisit := visit_related primitives_sameMaking (Form.decode t n) parent σ
      fun m _ parent σ => ih m parent σ
    refine hcongr.bind hvisit fun node => ?_
    exact hcongr.bind (report_sameMaking _ _) fun _ => hcongr.pure node

/-- An operand is lowered as an expression of its own would be, from the factory on that there is
and within the depth that is left. -/
theorem lowerNode_eq_lower (t : Tree) (limit budget : Nat) (n : NodeId) (parent : Nat)
    (σ : Substitution) (s : State) :
    let out := lower ⟨t, budget⟩ n parent σ s.factory
    (lowerNode ⟨t, limit⟩ budget n parent σ s).1 = out.node ∧
      (lowerNode ⟨t, limit⟩ budget n parent σ s).2.factory = out.factory :=
  lowerNode_sameMaking t limit budget budget n parent σ s { factory := s.factory } rfl

/-! ## Operands and operators -/

/-- Operands are lowered in turn, and those stay that are lowered to something. -/
theorem visitOperands_inTurn (recur : NodeId → Nat → Substitution → Run (Option Node))
    (parent : Nat) (σ : Substitution) (ns : List NodeId) (s : State) :
    ∃ nodes, (visitOperands recur parent σ ns s).1 = nodes.reduceOption ∧
      InTurn (fun n s node s' => recur n parent σ s = (node, s')) ns s nodes
        (visitOperands recur parent σ ns s).2 := by
  induction ns generalizing s with
  | nil => exact ⟨[], rfl, .nil s⟩
  | cons n ns ih =>
    obtain ⟨nodes, hnodes, hturns⟩ := ih (recur n parent σ s).2
    refine ⟨(recur n parent σ s).1 :: nodes, ?_, .cons rfl hturns⟩
    simp only [visitOperands, bind_apply, pure_apply, hnodes]
    cases (recur n parent σ s).1 <;> simp

private theorem lastCombinator_concat (items : List (Tag × NodeId)) {last : Tag × NodeId}
    {op : Opcode} (h : last.1.combinator? = some op) : lastCombinator (items ++ [last]) = op := by
  simp [lastCombinator, h]

/-! ## Lowering a list -/

/-- From one factory to another, a node is lowered under a parent to what there is of it. -/
def LowersTo (t : Tree) (limit parent : Nat) (σ : Substitution) (n : NodeId) (f : Factory)
    (node : Option Node) (f' : Factory) : Prop :=
  let out := lower ⟨t, limit⟩ n parent σ f
  out.node = node ∧ out.factory = f'

variable {t : Tree} {n site first : NodeId}

private theorem lower_loneEvent (h : Form.decode t n = ⟨n, site, .events first []⟩)
    (limit parent : Nat) (σ : Substitution) (factory : Factory) :
    let out := lower ⟨t, limit + 1⟩ n parent σ factory
    LowersTo t limit parent σ first factory out.node out.factory := by
  obtain ⟨hnode, hfactory⟩ := lowerNode_eq_lower t (limit + 1) limit first parent σ { factory }
  simp only [lower, lowerNode, h, visit, visitEvents]
  exact ⟨hnode.symm, hfactory.symm⟩

private theorem lower_severalEvents {rest : List (Tag × NodeId)} (hrest : rest ≠ [])
    (h : Form.decode t n = ⟨n, site, .events first rest⟩) (limit parent : Nat) (σ : Substitution)
    (factory : Factory) :
    let out := lower ⟨t, limit + 1⟩ n parent σ factory
    let id := factory.issued + 1
    ∃ nodes, out.node = some (.operation id parent (lastCombinator rest) nodes.reduceOption) ∧
      InTurn (LowersTo t limit id σ) (first :: rest.map (·.2)) (factory.issue .operation).2 nodes
        out.factory := by
  obtain ⟨nodes, hnodes, hturns⟩ := visitOperands_inTurn (lowerNode ⟨t, limit + 1⟩ limit)
    (factory.issued + 1) σ (first :: rest.map (·.2)) (issue .operation { factory }).2
  have hvisit : visitEvents (lowerNode ⟨t, limit + 1⟩ limit) first rest parent σ =
      visitOperation (lowerNode ⟨t, limit + 1⟩ limit) (lastCombinator rest)
        (first :: rest.map (·.2)) parent σ := by
    cases rest with
    | nil => exact absurd rfl hrest
    | cons item rest => rfl
  simp only [lower, lowerNode, h, visit, hvisit]
  refine ⟨nodes, congrArg (fun ns => some (Node.operation _ _ _ ns)) hnodes, ?_⟩
  refine hturns.project State.factory fun m _ s node s' hrun => ?_
  obtain ⟨hnode, hfactory⟩ := lowerNode_eq_lower t (limit + 1) limit m (factory.issued + 1) σ s
  rw [hrun] at hnode hfactory
  exact ⟨hnode.symm, hfactory.symm⟩

end Lower

open Form Lower in
/-- Lists of events go by places.  Of a node over an event, take the operators on the odd places
among its children from the first on, as many as there are without a gap.  The node is a list of
these operators and of the operands before, between and behind them; the last of these operands is
missing exactly when the children end in an operator.  Without an operator the list is lowered to
what its operand is lowered to under the same parent, and otherwise to one new operation, that of
the last operator, over what the operands in turn are lowered to, if anything. -/
theorem events_by_place {t : Tree} (h : t.Built) {n : NodeId}
    (hfirst : t.tag (t.child n) = .eventExpression) :
    let operand (i : Nat) := nth (t.children n) (2 * i)
    let operator (i : Nat) := t.tag (nth (t.children n) (2 * i + 1))
    ∃ k, IsGreatest {k | Joined t (t.children n) k} k ∧
      decode t n = ⟨n, t.child n, .events (operand 0)
        ((List.range k).map fun i => (operator i, operand (i + 1)))⟩ ∧
      (decode t n).shape.operands = (List.range (k + 1)).map operand ∧
      (∀ i ≤ k, operand i = 0 ↔ i = k ∧ (t.children n).length = 2 * k) ∧
      ∀ limit parent σ factory,
        let out := lower ⟨t, limit + 1⟩ n parent σ factory
        let id := factory.issued + 1
        (k = 0 → LowersTo t limit parent σ (operand 0) factory out.node out.factory) ∧
        ∀ last, k = last + 1 → ∃ op nodes, (operator last).combinator? = some op ∧
          out.node = some (.operation id parent op nodes.reduceOption) ∧
          InTurn (LowersTo t limit id σ) ((List.range (k + 1)).map operand)
            (factory.issue .operation).2 nodes out.factory := by
  intro operand operator
  obtain ⟨rest, hchildren, hform⟩ := decode_events h.linked hfirst
  have hgreatest := eventList_greatest t (t.child n) rest
  have hplaces := eventList_places t (t.child n) rest
  rw [← hchildren] at hgreatest hplaces
  have hzero : operand 0 = t.child n := by simp [operand, hchildren, nth]
  -- From here on the list is known only by its places.
  generalize (eventList t rest).length = k at hgreatest hplaces
  rw [hplaces, ← hzero] at hform
  have hoperands : operand 0 :: ((List.range k).map fun i => (operator i, operand (i + 1))).map
      (·.2) = (List.range (k + 1)).map operand := by
    rw [List.range_succ_eq_map, List.map_cons, List.map_map, List.map_map]
    rfl
  refine ⟨k, hgreatest, hzero ▸ hform, ?_, fun i hi => hgreatest.1.operand_eq_zero_iff h.linked hi,
    fun limit parent σ factory => ⟨?_, ?_⟩⟩
  · rw [hform]
    exact hoperands
  · rintro rfl
    exact lower_loneEvent hform limit parent σ factory
  · rintro last rfl
    obtain ⟨op, hop⟩ := Option.isSome_iff_exists.1 (hgreatest.1.operator (Nat.lt_succ_self last))
    have hlast : lastCombinator ((List.range (last + 1)).map fun i =>
        (operator i, operand (i + 1))) = op := by
      rw [List.range_succ, List.map_append]
      exact lastCombinator_concat _ hop
    obtain ⟨nodes, hnode, hturns⟩ := lower_severalEvents (by simp) hform limit parent σ factory
    exact ⟨op, nodes, hop, hlast ▸ hnode, hoperands ▸ hturns⟩

/-- The list `clk or rst,`, which ends in an operator. -/
def trailingComma : Tree :=
  let t : Tree := ⟨"a.sv", #[]⟩
  let t := ((t.leaf .stringConst "clk").2.node .eventExpression [1]).tree
  let t := ((t.leaf .orOperator "").2.leaf .stringConst "rst").2
  let t := ((t.node .expression [4]).tree.leaf .commaOperator "").2
  (t.node .eventExpression [2, 3, 5, 6]).tree

/-- The last operator decides, and the operand behind it is missing. -/
theorem events_by_place_trailingComma :
    let out := Lower.lower ⟨trailingComma, 2⟩ 7 0 .none {}
    trailingComma.Built ∧ trailingComma.tag (trailingComma.child 7) = .eventExpression ∧
      (Form.decode trailingComma 7).shape.operands = [2, 5, 0] ∧
      ∃ nodes, nodes.reduceOption.length = 2 ∧
        out.node = some (.operation 1 0 .list nodes.reduceOption) ∧
        InTurn (Lower.LowersTo trailingComma 1 1 .none) [2, 5, 0]
          (Ir.Factory.issue {} .operation).2 nodes out.factory := by
  have hbuilt : trailingComma.Built :=
    .node (.leaf (.node (.leaf (.leaf (.node (.leaf (.empty _) _ _) _ _) _ _) _ _) _ _) _ _) _ _
  have hfirst : trailingComma.tag (trailingComma.child 7) = .eventExpression := by decide
  have hoperands : (Form.decode trailingComma 7).shape.operands = [2, 5, 0] := by decide +kernel
  obtain ⟨k, -, -, hlist, -, hlower⟩ := events_by_place hbuilt hfirst
  obtain rfl : k = 2 := by simpa [hoperands, eq_comm] using congrArg List.length hlist
  obtain ⟨op, nodes, hop, hnode, hturns⟩ := (hlower 1 0 .none {}).2 1 rfl
  have hlast : (trailingComma.tag (Form.nth (trailingComma.children 7) 3)).combinator? =
      some .list := by decide +kernel
  obtain rfl : op = .list := Option.some.inj (hop.symm.trans hlast)
  have hcount : (Lower.lower ⟨trailingComma, 2⟩ 7 0 .none {}).node.map (·.children.length) =
      some 2 := by decide +kernel
  rw [hnode] at hcount
  exact ⟨hbuilt, hfirst, hoperands, nodes, by simpa [Ir.Node.children] using hcount, hnode, hturns⟩

end HdlExpr
