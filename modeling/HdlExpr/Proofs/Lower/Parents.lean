import Mathlib.Logic.Relation
import HdlExpr.Proofs.Lower.Numbering

/-!
# Parents

Every node of a lowered tree knows the node that it is an operand of, and the top of the tree the
parent that it was lowered under.  Only part selects stand one step further away, with their
reference between.
-/

namespace HdlExpr

namespace Ir.Node

/-- A node belongs under a number: directly, or for a part select through its reference. -/
def Hangs (n : Node) (p : Nat) : Prop :=
  (n.kind.isPart = false ∧ n.parent = p) ∨
    (n.kind.isPart = true ∧ ∃ o, n.object? = some o ∧ n.parent = o.id ∧ o.parent = p)

/-- One step up from a node or a reference of a tree, by their numbers. -/
def Up (r : Node) (i j : Nat) : Prop := ∃ e ∈ r.all.flatMap entries, e.id = i ∧ e.parent = j

end Ir.Node

namespace Lower

open Ir (Node Kind Ref Factory Entry)

variable {p : Nat} {f f' : Factory} {ns : List Node}

theorem Makes.hangs (h : Makes p f ns f') : ∀ n ∈ ns, n.Hangs p := by
  induction h with
  | nil => nofun
  | append _ _ ih ih' => exact List.forall_mem_append.mpr ⟨ih, ih'⟩
  | plain kind _ parent _ => exact List.forall_mem_singleton.mpr (.inl ⟨kind, parent⟩)
  | @part p f f' n o kind object _ parent _ _ =>
    have hn : n.parent = o.id := Node.parent_of_object? object
    exact List.forall_mem_singleton.mpr (.inr ⟨kind, o, object, hn, parent⟩)

theorem Makes.operands_hang (h : Makes p f ns f') :
    ∀ m ∈ Node.allOf ns, ∀ child ∈ m.operands, child.Hangs m.id := by
  induction h with
  | nil => nofun
  | append _ _ ih ih' =>
    rw [Node.allOf_append]
    exact List.forall_mem_append.mpr ⟨ih, ih'⟩
  | plain _ _ _ operands ih | part _ _ _ _ _ operands ih =>
    rw [Node.allOf_one]
    exact List.forall_mem_cons.mpr ⟨operands.hangs, ih⟩

/-- Whatever list the entries of the nodes stand in, its links lead from each node to the
parent. -/
theorem Makes.climbs (h : Makes p f ns f') {es : List Entry}
    (hes : (Node.allOf ns).flatMap Node.entries ⊆ es) :
    ∀ m ∈ Node.allOf ns,
      Relation.TransGen (fun i j => ∃ e ∈ es, e.id = i ∧ e.parent = j) m.id p := by
  induction h with
  | nil => nofun
  | append _ _ ih ih' =>
    rw [Node.allOf_append] at hes ⊢
    rw [List.flatMap_append] at hes
    obtain ⟨hns, hms⟩ := List.append_subset.mp hes
    exact List.forall_mem_append.mpr ⟨ih hns, ih' hms⟩
  | @plain p f f' n kind _ parent _ ih =>
    rw [Node.allOf_one] at hes ⊢
    rw [List.flatMap_cons, Node.entries_plain kind] at hes
    obtain ⟨hn, hbelow⟩ := List.append_subset.mp hes
    -- the last step of every path: from the node to the parent
    have hup : ∃ e ∈ es, e.id = n.id ∧ e.parent = p := ⟨_, hn List.mem_cons_self, rfl, parent⟩
    exact List.forall_mem_cons.mpr ⟨.single hup, fun m hm => (ih hbelow m hm).tail hup⟩
  | @part p f f' n o kind object _ parent _ _ ih =>
    rw [Node.allOf_one] at hes ⊢
    rw [List.flatMap_cons, Node.entries_part object] at hes
    obtain ⟨hn, hbelow⟩ := List.append_subset.mp hes
    -- the last two steps: from the select to its reference, and on to the parent
    have hup : ∃ e ∈ es, e.id = n.id ∧ e.parent = o.id :=
      ⟨_, hn (List.mem_cons_of_mem _ List.mem_cons_self), rfl, rfl⟩
    have hover : ∃ e ∈ es, e.id = o.id ∧ e.parent = p := ⟨_, hn List.mem_cons_self, rfl, parent⟩
    refine List.forall_mem_cons.mpr ⟨.tail (.single hup) hover, fun m hm => ?_⟩
    exact ((ih hbelow m hm).tail hup).tail hover

/-- In a lowered tree the top hangs under the parent and every operand under its node.  The
numbers of nodes and references are all different and new to the factory, so each has one step
up, and these steps lead from every node to the parent. -/
theorem lower_parents (c : Context) (n : NodeId) (parent : Nat) (σ : Substitution)
    (factory : Factory) {r : Node} (h : (lower c n parent σ factory).node = some r) :
    r.Hangs parent ∧
      (∀ m ∈ r.all, ∀ child, some child ∈ m.children → child.Hangs m.id) ∧
      ((r.all.flatMap Node.entries).map Entry.id).Nodup ∧
      (∀ i j, r.Up i j → factory.issued < i) ∧
      ∀ m ∈ r.all, Relation.TransGen r.Up m.id parent := by
  have hmakes := lower_makes c n parent σ factory
  rw [h, Option.toList_some] at hmakes
  have hall : Node.allOf [r] = r.all := List.append_nil _
  have hgives := hmakes.gives
  have hoperands := hmakes.operands_hang
  rw [hall] at hgives hoperands
  refine ⟨hmakes.hangs r List.mem_cons_self, ?_, ?_, ?_, ?_⟩
  · intro m hm child hchild
    exact hoperands m hm child (Node.mem_operands.mpr hchild)
  · exact hgives.pairwise.imp Nat.ne_of_lt
  · rintro i j ⟨e, he, rfl, _⟩
    have hid := List.mem_map_of_mem (f := Entry.id) he
    rw [hgives.ids] at hid
    exact (List.mem_range'_1.mp hid).1
  · intro m hm
    rw [← hall] at hm
    exact hmakes.climbs (hall ▸ List.Subset.refl _) m hm

/-- The bounds of `v[3:0]` in `w[v[3:0]:1] + x` have the numbers 7 and 8. -/
theorem lower_parents_nestedParts :
    ∃ r, nestedPartsLowered.node = some r ∧ r.Hangs 1 ∧
      (∃ m ∈ r.all, m.id = 6 ∧ ∀ child, some child ∈ m.children → child.Hangs 6) ∧
      Relation.TransGen r.Up 7 1 := by
  have hsome : nestedPartsLowered.node.isSome = true := by decide +kernel
  have hnodes : (Node.allOf? nestedPartsLowered.node).map Node.id = [2, 4, 6, 7, 8, 9, 10] := by
    decide +kernel
  obtain ⟨r, hr⟩ := Option.isSome_iff_exists.mp hsome
  rw [hr, Node.allOf?] at hnodes
  obtain ⟨htop, hoperands, _, _, hclimbs⟩ :=
    lower_parents nestedPartsContext 31 1 .none ⟨[.call]⟩ hr
  have hmem (i : Nat) (hi : i ∈ [2, 4, 6, 7, 8, 9, 10]) : ∃ m ∈ r.all, m.id = i :=
    List.mem_map.mp (hnodes ▸ hi)
  obtain ⟨m, hm, hid⟩ := hmem 6 (by decide)
  obtain ⟨m', hm', hid'⟩ := hmem 7 (by decide)
  exact ⟨r, hr, htop, ⟨m, hm, hid, hid ▸ hoperands m hm⟩, hid' ▸ hclimbs m' hm'⟩

end Lower

end HdlExpr
