import Mathlib.Data.List.Forall2
import HdlExpr.Proofs.Fold.Visits
import HdlExpr.Proofs.Value.Strictness

/-!
# Failures show in the value

An evaluation that reports an unresolved name or is cut off somewhere gives the invalid value.
Read the other way round: behind a valid value stand only visits that went well, each of them to a
node within the depth limit that was folded to a valid value, and names that have a cell.
-/

namespace HdlExpr

/-- What a report says was folded, and where. -/
def Report.folded? : Report → Option (Shape × Location)
  | .folded shape place _ => some (shape, place)
  | _ => none

namespace Fold

open Run Value

/-! ## One node -/

private theorem selected_of_invalid {v : Value} {select : Select} {vs : List Value}
    (hl : vs.length = select.bounds.length) (h : ∃ u ∈ vs, u.isValid = false) :
    selected v select vs = Value.invalid := by
  obtain ⟨u, hu, hv⟩ := h
  have hb := boundOf_of_invalid hv
  cases select with
  | none => simp [Select.bounds] at hl; simp [hl] at hu
  | bit index =>
    obtain ⟨i, rfl⟩ := List.length_eq_one_iff.mp hl
    rw [List.mem_singleton] at hu
    subst hu
    simp [selected, hb]
  | part left right =>
    obtain ⟨hi, lo, rfl⟩ := List.length_eq_two.mp hl
    simp only [List.mem_cons, List.not_mem_nil, or_false] at hu
    rcases hu with rfl | rfl <;> simp [selected, hb]
  | indexed base direction width =>
    obtain ⟨b, w, rfl⟩ := List.length_eq_two.mp hl
    simp only [List.mem_cons, List.not_mem_nil, or_false] at hu
    rcases hu with rfl | rfl <;> simp [selected, hb]

private theorem named_isValid {scope : Scope} {ident : Ident} {xs : List Operand}
    (hl : xs.length = (operands scope.binds (.name ident)).length)
    (h : (named scope ident xs).value.isValid = true) :
    scope.binds ident.name = true ∧ ∀ x ∈ xs, x.value.isValid = true := by
  cases hs : scope.lookup ident.name with
  | none => simp [named, hs, Operand.absent] at h
  | some slot =>
    have hb : scope.binds ident.name = true := by simp [Scope.binds, hs]
    refine ⟨hb, fun x hx => ?_⟩
    simp only [operands, hb, if_true] at hl
    cases hi : ident.select with
    | none =>
      rw [hi, Select.bounds, List.length_nil, List.length_eq_zero_iff] at hl
      simp [hl] at hx
    | bit _ | part _ _ | indexed _ _ _ =>
      by_contra hv
      have he : selected (scope.load slot) ident.select (xs.map (·.value)) = Value.invalid :=
        selected_of_invalid (by rw [List.length_map, hl])
          ⟨x.value, List.mem_map_of_mem hx, by simpa using hv⟩
      rw [hi] at he
      simp [named, hs, hi, he] at h

/-- A shape has a valid value only when all its operands have one. -/
theorem result_isValid {scope : Scope} {shape : Shape} {xs : List Operand}
    (hl : xs.length = (operands scope.binds shape).length)
    (h : (result scope shape xs).value.isValid = true) :
    (∀ ident, shape = .name ident → scope.binds ident.name = true) ∧
      ∀ x ∈ xs, x.value.isValid = true := by
  cases shape with
  | empty | events | literal | call | concat =>
    have hx : xs = [] := List.length_eq_zero_iff.mp hl
    simp [hx]
  | unary op operand =>
    refine ⟨by simp, fun x hx => ?_⟩
    have hle : (operands scope.binds (.unary op operand)).length ≤ 1 := by
      simp only [operands]
      split <;> simp
    obtain ⟨y, rfl⟩ : ∃ y, xs = [y] :=
      List.length_eq_one_iff.mp (by have := List.length_pos_of_mem hx; omega)
    rw [List.mem_singleton] at hx
    subst hx
    by_contra hv
    rw [Bool.not_eq_true] at hv
    cases hs : op.unaryOp?.bind Ir.Opcode.step? with
    | some f =>
      obtain ⟨code, _, hf⟩ := Option.bind_eq_some_iff.mp hs
      simp [result, hs, Ir.Opcode.step?_of_invalid hf hv] at h
    | none =>
      cases hu : op.unaryOp?.bind Ir.Opcode.unary? with
      | none => simp [result, hs, hu, Operand.absent] at h
      | some f =>
        obtain ⟨code, _, hf⟩ := Option.bind_eq_some_iff.mp hu
        simp [result, hs, hu, Ir.Opcode.unary?_of_invalid hf hv] at h
  | binary left op right =>
    refine ⟨by simp, ?_⟩
    cases hf : op.binaryOp?.bind Ir.Opcode.binary? with
    | none =>
      simp only [operands, hf] at hl
      obtain ⟨x, rfl⟩ := List.length_eq_one_iff.mp hl
      simpa [result] using h
    | some f =>
      simp only [operands, hf] at hl
      obtain ⟨x, y, rfl⟩ := List.length_eq_two.mp hl
      obtain ⟨code, _, hc⟩ := Option.bind_eq_some_iff.mp hf
      simp only [result, hf] at h
      by_contra hx
      have hv : x.value.isValid = false ∨ y.value.isValid = false := by
        by_contra hv
        simp_all
      simp [Ir.Opcode.binary?_of_invalid hc hv] at h
  | name ident =>
    obtain ⟨hb, hx⟩ := named_isValid hl h
    exact ⟨fun _ hi => (Shape.name.inj hi) ▸ hb, hx⟩
  | lvalue operand op =>
    obtain ⟨x, rfl⟩ := List.length_eq_one_iff.mp hl
    refine ⟨by simp, ?_⟩
    cases op with
    | none => simpa [result] using h
    | some op =>
      cases hp : op.postOp?.bind Ir.Opcode.step? <;> simpa [result, hp] using h

/-! ## Every visit -/

/-- What a visit finds, and where. -/
def Visit.place (t : Tree) (k : Visit) : Shape × Location :=
  ((k.form t).shape, t.location (k.form t).site)

/-- A visit that went well and was reported: the node is not cut off, its name, if it is one, has
a cell, and its value is valid. -/
def Visit.Succeeds (c : Context) (bound : String → Bool) (k : Visit) (r : Report) : Prop :=
  k.budget ≠ 0 ∧ (∀ ident, (k.form c.tree).shape = .name ident → bound ident.name = true) ∧
    ∃ v : Value, v.isValid = true ∧
      r = .folded (k.place c.tree).1 (k.place c.tree).2 v

/-- From one state to another, one value was reported for each visit that is not cut off, and if
`valid`, nothing else was reported and all visits went well. -/
def Reported (c : Context) (bound : String → Bool) (ks : List Visit) (s s' : State)
    (valid : Prop) : Prop :=
  ∃ new, s'.reports.toList = s.reports.toList ++ new ∧
    new.filterMap Report.folded? = (ks.filter (·.budget != 0)).map (Visit.place c.tree) ∧
    (valid → List.Forall₂ (Visit.Succeeds c bound) ks new)

theorem Reported.append {c : Context} {bound : String → Bool} {ks ks' : List Visit}
    {s s₁ s₂ : State} {p q : Prop} (h : Reported c bound ks s s₁ p)
    (h' : Reported c bound ks' s₁ s₂ q) : Reported c bound (ks ++ ks') s s₂ (p ∧ q) := by
  obtain ⟨new, hn, hf, hv⟩ := h
  obtain ⟨new', hn', hf', hv'⟩ := h'
  refine ⟨new ++ new', ?_, ?_, ?_⟩
  · rw [hn', hn, List.append_assoc]
  · rw [List.filterMap_append, List.filter_append, List.map_append, hf, hf']
  · intro ⟨hp, hq⟩
    exact List.rel_append (hv hp) (hv' hq)

theorem succeeds_all {c : Context} {bound : String → Bool} {ks : List Visit} {rs : List Report}
    (h : List.Forall₂ (Visit.Succeeds c bound) ks rs) :
    Report.complaints rs = [] ∧ ∀ k ∈ ks, k.budget ≠ 0 := by
  induction h with
  | nil => simp [Report.complaints]
  | cons first _ ih =>
    obtain ⟨hb, _, v, _, rfl⟩ := first
    exact ⟨by simpa [Report.complaints] using ih.1, List.forall_mem_cons.mpr ⟨hb, ih.2⟩⟩

private theorem inTurn_reported {c : Context} {bound : String → Bool} {budget : Nat}
    {ns : List NodeId} {s s' : State} {xs : List Operand}
    (h : InTurn (fun n s x s' =>
      Reported c bound (visits c.tree bound budget n) s s' (x.value.isValid = true)) ns s xs s') :
    Reported c bound (ns.flatMap (visits c.tree bound budget)) s s'
      (∀ x ∈ xs, x.value.isValid = true) := by
  induction h with
  | nil s => exact ⟨[], by simp, by simp, fun _ => .nil⟩
  | cons first _ ih =>
    obtain ⟨new, hn, hf, hv⟩ := first.append ih
    exact ⟨new, hn, hf, fun hx => hv (List.forall_mem_cons.mp hx)⟩

theorem warn_reports (c : Context) (n : NodeId) (s : State) :
    (warn c n s).2.reports.toList = s.reports.toList ++
      if s.warned then [] else [.tooDeepToFold c.limit (c.tree.location n)] := by
  cases hw : s.warned <;> simp [warn, report, hw]

theorem opened_of_bound {c : Context} {form : Form} {s : State}
    (h : ∀ ident, form.shape = .name ident → s.scope.binds ident.name = true) :
    opened c form s = s := by
  unfold opened
  split
  · rw [if_pos (h _ ‹_›)]
  · rfl

/-- Before the operands of a form nothing is reported but an unresolved name. -/
theorem opened_reports (c : Context) (form : Form) (s : State) :
    ∃ ds : List Complaint,
      (opened c form s).reports.toList = s.reports.toList ++ ds.map .unresolved := by
  unfold opened
  split
  · split
    · exact ⟨[], by simp⟩
    · cases hm : c.mute with
      | true => exact ⟨[], by simp [unresolved, hm]⟩
      | false => exact ⟨[_], by simp [unresolved, report, hm]; rfl⟩
  · exact ⟨[], by simp⟩

theorem closed_reports (c : Context) (form : Form) (scope : Scope) (xs : List Operand)
    (s : State) :
    (closed c form scope xs s).reports.toList = s.reports.toList ++
      [.folded form.shape (c.tree.location form.site) (result scope form.shape xs).value] := by
  rw [closed, Array.toList_push]

theorem fold_reported (c : Context) (scope : Scope) (budget : Nat) (n : NodeId) (s : State)
    (hs : s.scope.levels = scope.levels) :
    Reported c scope.binds (visits c.tree scope.binds budget n) s (fold c budget n s).2
      ((fold c budget n s).1.value.isValid = true) := by
  refine fold_induction c scope (P := fun budget n s x s' =>
    Reported c scope.binds (visits c.tree scope.binds budget n) s s' (x.value.isValid = true))
    ?_ ?_ budget n s hs
  · intro n s _
    refine ⟨_, warn_reports c n s, ?_, by simp [Operand.absent]⟩
    cases s.warned <;> simp [visits, Report.folded?]
  · intro budget n s xs s' hs h
    obtain ⟨new, hn, hf, hv⟩ := inTurn_reported h
    obtain ⟨ds, hd⟩ := opened_reports c (Form.decode c.tree n) s
    have hds : (ds.map Report.unresolved).filterMap Report.folded? = [] := by
      simp [List.filterMap_eq_nil_iff, Report.folded?]
    have hc := closed_reports c (Form.decode c.tree n) s.scope xs s'
    rw [hn, hd, List.append_assoc, List.append_assoc] at hc
    refine ⟨_, hc, ?_, ?_⟩
    · rw [List.filterMap_append, List.filterMap_append, hds, hf]
      simp [visits, Report.folded?, Visit.place, Visit.form]
    · intro hr
      rw [← Scope.binds_congr hs] at h hv ⊢
      obtain ⟨hb, hx⟩ := result_isValid h.length_eq hr
      rw [opened_of_bound hb, List.self_eq_append_right] at hd
      rw [hd]
      refine List.rel_append (hv hx) (.cons ⟨by simp, hb, ?_⟩ .nil)
      exact ⟨_, hr, rfl⟩

/-! ## Cutting off -/

/-- An expression is known to nest too deeply exactly when this was reported. -/
def Told (s : State) : Prop :=
  s.warned = true ↔ ∃ limit place, Report.tooDeepToFold limit place ∈ s.reports.toList

private theorem told_of_reports {s s' : State} {new : List Report} (hw : s'.warned = s.warned)
    (hr : s'.reports.toList = s.reports.toList ++ new)
    (hn : ∀ limit place, Report.tooDeepToFold limit place ∉ new) (h : Told s) : Told s' := by
  unfold Told at h ⊢
  rw [hw, h, hr]
  simp [hn]

private theorem opened_warned (c : Context) (form : Form) (s : State) :
    (opened c form s).warned = s.warned := by
  unfold opened
  split
  · split
    · rfl
    · cases hm : c.mute <;> simp [unresolved, report, hm]
  · rfl

/-- From one state to another it became known that one of the visits was cut off. -/
def Noticed (ks : List Visit) (s s' : State) : Prop :=
  s'.warned = (s.warned || ks.any (·.budget == 0)) ∧ (Told s → Told s')

private theorem inTurn_noticed {t : Tree} {bound : String → Bool} {budget : Nat} {ns : List NodeId}
    {s s' : State} {xs : List Operand}
    (h : InTurn (fun n s _ s' => Noticed (visits t bound budget n) s s') ns s xs s') :
    Noticed (ns.flatMap (visits t bound budget)) s s' := by
  induction h with
  | nil s => exact ⟨by simp, id⟩
  | cons first _ ih =>
    refine ⟨?_, fun h => ih.2 (first.2 h)⟩
    rw [ih.1, first.1, List.flatMap_cons, List.any_append, Bool.or_assoc]

private theorem warn_noticed (c : Context) (n : NodeId) (s : State) :
    Noticed [⟨0, n⟩] s (warn c n s).2 := by
  cases hw : s.warned with
  | true =>
    have hs : (warn c n s).2 = s := by simp [warn, hw]
    rw [hs]
    exact ⟨by simp [hw], id⟩
  | false =>
    refine ⟨by simp [warn, report, hw], fun _ => ?_⟩
    simp only [Told, warn_reports, hw]
    simp only [warn, report, hw, bind_apply, get_apply, modify_apply, Bool.false_eq_true, if_false,
      List.mem_append, List.mem_singleton, true_iff]
    exact ⟨_, _, .inr rfl⟩

theorem fold_noticed (c : Context) (scope : Scope) (budget : Nat) (n : NodeId) (s : State)
    (hs : s.scope.levels = scope.levels) :
    Noticed (visits c.tree scope.binds budget n) s (fold c budget n s).2 := by
  refine fold_induction c scope (P := fun budget n s _ s' =>
    Noticed (visits c.tree scope.binds budget n) s s') ?_ ?_ budget n s hs
  · exact fun n s _ => warn_noticed c n s
  · intro budget n s xs s' _ h
    obtain ⟨hw, ht⟩ := inTurn_noticed h
    obtain ⟨ds, hd⟩ := opened_reports c (Form.decode c.tree n) s
    refine ⟨?_, fun told => ?_⟩
    · rw [closed, hw, opened_warned]
      simp [visits]
    · have opening := ht (told_of_reports (opened_warned c _ s) hd (by simp) told)
      refine told_of_reports ?_ (closed_reports c _ s.scope xs s') (by simp) opening
      rfl

/-- One value is reported for each visit that is not cut off, in order, and a visit that is cut
off is reported.  If a name is unresolved or a visit is cut off, the value of the whole is
invalid; behind a valid value every visit went well, and nothing else was reported. -/
theorem evaluate_strict (c : Context) (n : NodeId) (scope : Scope) :
    let out := evaluate c n scope
    let seen := visits c.tree scope.binds c.limit n
    out.reports.filterMap Report.folded? =
        (seen.filter (·.budget != 0)).map (Visit.place c.tree) ∧
      ((∃ k ∈ seen, k.budget = 0) ↔
        ∃ limit place, Report.tooDeepToFold limit place ∈ out.reports) ∧
      ((Report.complaints out.reports ≠ [] ∨ ∃ k ∈ seen, k.budget = 0) →
        out.value.isValid = false) ∧
      (out.value.isValid = true →
        List.Forall₂ (Visit.Succeeds c scope.binds) seen out.reports) := by
  intro out seen
  obtain ⟨new, hn, hf, hv⟩ := fold_reported c scope c.limit n { scope } rfl
  have hnew : out.reports = new := hn
  obtain ⟨hw, ht⟩ := fold_noticed c scope c.limit n { scope } rfl
  have hnone : Told { scope } := by simp [Told]
  refine ⟨hnew ▸ hf, ?_, ?_, fun h => hnew ▸ hv h⟩
  · refine Iff.trans ?_ (ht hnone)
    rw [hw]
    simp [seen]
  · intro hbad
    by_contra hvalid
    obtain ⟨hd, hk⟩ := succeeds_all (hv (Bool.of_not_eq_false hvalid))
    rcases hbad with hbad | ⟨k, hm, hz⟩
    · exact hbad (hnew ▸ hd)
    · exact hk k hm hz

end Fold

end HdlExpr
