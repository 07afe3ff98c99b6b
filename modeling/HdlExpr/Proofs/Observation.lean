import HdlExpr.Evaluator
import HdlExpr.Proofs.Fold.Strictness
import HdlExpr.Proofs.Visiting
import HdlExpr.Tree.Build

/-!
# Watching an evaluation

Who watches an evaluation has no hand in it, as long as no search for a hint breaks down.  An
evaluator is compared with plain folding, which keeps its reports: both go through the same values
and the same cells, and of these reports the sink and the log get what is meant for them.  The
diagnostics are those of the visits to names without a cell, in order.  Only an evaluator that makes
diagnostics can break down, and then it does so at the first of these visits whose search does.
-/

namespace HdlExpr

/-! ## Complaints -/

theorem Scope.names_congr {s s' : Scope} (h : s'.levels = s.levels) : s'.names = s.names := by
  simp only [Scope.names, h]

/-- What a form has to complain of over a scope: a name without a cell. -/
def Form.complaint? (t : Tree) (scope : Scope) (form : Form) : Option Complaint :=
  match form.shape with
  | .name ident =>
    if scope.binds ident.name then none
    else some ⟨ident.name, t.location form.site, scope.names⟩
  | _ => none

theorem Form.complaint?_congr {s s' : Scope} (h : s'.levels = s.levels) (t : Tree) (form : Form) :
    form.complaint? t s' = form.complaint? t s := by
  simp only [Form.complaint?, Scope.binds_congr h, Scope.names_congr h]

theorem Form.complaint?_eq_some {t : Tree} {scope : Scope} {form : Form} {c : Complaint}
    (h : form.complaint? t scope = some c) :
    scope.lookup c.name = none ∧ c.location = t.location form.site ∧ c.visible = scope.names ∧
      ∃ ident, form.shape = .name ident ∧ ident.name = c.name := by
  unfold Form.complaint? at h
  split at h
  · split at h
    · cases h
    · rename_i ident hshape hbinds
      cases h
      have hnone : scope.lookup ident.name = none := by simpa [Scope.binds] using hbinds
      exact ⟨hnone, rfl, rfl, ident, hshape, rfl⟩
  · cases h

namespace Complaint

variable {suggest : Suggest}

/-- The diagnostics of complaints, up to the first whose search breaks down. -/
def answered (suggest : Suggest) : List Complaint → List Diagnostic
  | [] => []
  | c :: rest =>
    match c.diagnostic? suggest with
    | some d => d :: answered suggest rest
    | none => []

/-- Each complaint has its diagnostic. -/
def Answers (suggest : Suggest) (cs : List Complaint) (ds : List Diagnostic) : Prop :=
  List.Forall₂ (fun c d => c.diagnostic? suggest = some d) cs ds

private theorem answered_append {cs : List Complaint} {ds : List Diagnostic}
    (h : Answers suggest cs ds)
    (more : List Complaint) : answered suggest (cs ++ more) = ds ++ answered suggest more := by
  induction h with
  | nil => rfl
  | cons first _ ih => rw [List.cons_append, answered, first, ih, List.cons_append]

theorem Answers.answered_eq {cs : List Complaint} {ds : List Diagnostic}
    (h : Answers suggest cs ds) : answered suggest cs = ds := by
  have happend := answered_append h []
  rwa [List.append_nil, answered, List.append_nil] at happend

theorem Answers.isSome {cs : List Complaint} {ds : List Diagnostic} (h : Answers suggest cs ds) :
    ∀ c ∈ cs, (c.diagnostic? suggest).isSome = true := by
  induction h with
  | nil => exact List.forall_mem_nil _
  | cons first _ ih => exact List.forall_mem_cons.mpr ⟨by rw [first]; rfl, ih⟩

private theorem isSome_diagnostic? (c : Complaint) :
    (c.diagnostic? suggest).isSome = (suggest c.name c.visible).isSome :=
  Option.isSome_map

private theorem mem_answered {cs : List Complaint} {d : Diagnostic} (h : d ∈ answered suggest cs) :
    ∃ c ∈ cs, c.diagnostic? suggest = some d := by
  induction cs with
  | nil => simp [answered] at h
  | cons c cs ih =>
    rw [answered] at h
    split at h
    case h_1 d' hd =>
      obtain rfl | h := List.mem_cons.mp h
      · exact ⟨c, List.mem_cons_self, hd⟩
      · obtain ⟨c', hc', hd'⟩ := ih h
        exact ⟨c', List.mem_cons_of_mem c hc', hd'⟩
    case h_2 => cases h

private theorem diagnostic?_eq_some {c : Complaint} {d : Diagnostic}
    (h : c.diagnostic? suggest = some d) :
    d.kind = .unresolvedName ∧ d.name = c.name ∧ d.location = c.location := by
  obtain ⟨hint, -, rfl⟩ := Option.map_eq_some_iff.mp h
  exact ⟨rfl, rfl, rfl⟩

end Complaint

namespace Fold

open Run

/-- A node that is cut off is not looked at. -/
def Visit.complaint? (t : Tree) (scope : Scope) (k : Visit) : Option Complaint :=
  if k.budget = 0 then none else (k.form t).complaint? t scope

/-- What an expression has to complain of, in the order of its visits. -/
def complaints (t : Tree) (scope : Scope) (limit : Nat) (n : NodeId) : List Complaint :=
  (visits t scope.binds limit n).filterMap (Visit.complaint? t scope)

/-- From one state to another, what the visits have to complain of was reported, unless reports are
muted. -/
def Complains (c : Context) (scope : Scope) (ks : List Visit) (s s' : State) : Prop :=
  Report.complaints s'.reports.toList = Report.complaints s.reports.toList ++
    if c.mute then [] else ks.filterMap (Visit.complaint? c.tree scope)

theorem Complains.append {c : Context} {scope : Scope} {ks ks' : List Visit} {s s₁ s₂ : State}
    (h : Complains c scope ks s s₁) (h' : Complains c scope ks' s₁ s₂) :
    Complains c scope (ks ++ ks') s s₂ := by
  unfold Complains at h h' ⊢
  rw [h', h, List.append_assoc, List.filterMap_append]
  cases c.mute <;> rfl

private theorem inTurn_complains {c : Context} {scope : Scope} {budget : Nat} {ns : List NodeId}
    {s s' : State} {xs : List Operand}
    (h : InTurn (fun n s _ s' =>
      Complains c scope (visits c.tree scope.binds budget n) s s') ns s xs s') :
    Complains c scope (ns.flatMap (visits c.tree scope.binds budget)) s s' := by
  induction h with
  | nil s => simp [Complains]
  | cons first _ ih => exact first.append ih

private theorem opened_complaints (c : Context) (form : Form) (s : State) :
    Report.complaints (opened c form s).reports.toList =
      Report.complaints s.reports.toList ++
        if c.mute then [] else (form.complaint? c.tree s.scope).toList := by
  obtain ⟨node, site, shape⟩ := form
  cases shape with
  | name ident =>
    cases hb : s.scope.binds ident.name <;> cases hm : c.mute <;>
      simp [opened, unresolved, report, Form.complaint?, Report.complaints, hb, hm]
  | empty | unary | binary | events | literal | lvalue | call | concat =>
    simp [opened, Form.complaint?]

/-- A name without a cell has no operands that are folded, so its complaint comes in its turn. -/
theorem operands_of_complaint {t : Tree} {scope : Scope} {form : Form} {c : Complaint}
    (h : form.complaint? t scope = some c) : operands scope.binds form.shape = [] := by
  obtain ⟨hnone, _, _, ident, hshape, hname⟩ := Form.complaint?_eq_some h
  have hb : scope.binds ident.name = false := by simp [Scope.binds, hname, hnone]
  rw [hshape]
  simp [operands, hb]

private theorem fold_complains (c : Context) (scope : Scope) (budget : Nat) (n : NodeId) (s : State)
    (hs : s.scope.levels = scope.levels) :
    Complains c scope (visits c.tree scope.binds budget n) s (fold c budget n s).2 := by
  apply fold_induction c scope (P := fun budget n s _ s' =>
    Complains c scope (visits c.tree scope.binds budget n) s s')
  · intro n s _
    have hw := warn_reports c n s
    unfold Complains
    rw [hw]
    cases s.warned <;> simp [visits, Visit.complaint?, Report.complaints]
  · intro budget n s xs s' hs h
    have hin := inTurn_complains h
    have hopen := opened_complaints c (Form.decode c.tree n) s
    rw [Form.complaint?_congr hs] at hopen
    unfold Complains at hin ⊢
    rw [closed_reports, Report.complaints_append, hin, hopen]
    cases hd : (Form.decode c.tree n).complaint? c.tree scope with
    | none => simp [visits, Visit.complaint?, Visit.form, hd, Report.complaints]
    | some d =>
      simp [visits, Visit.complaint?, Visit.form, hd, operands_of_complaint hd,
        Report.complaints]
  · exact hs

theorem evaluate_complaints_eq (c : Context) (n : NodeId) (scope : Scope) :
    Report.complaints (evaluate c n scope).reports =
      if c.mute then [] else complaints c.tree scope c.limit n :=
  fold_complains c scope c.limit n { scope } rfl

/-- Behind a complaint stands a visit to a name that is not bound. -/
theorem mem_complaints {t : Tree} {scope : Scope} {limit : Nat} {n : NodeId} {c : Complaint}
    (h : c ∈ complaints t scope limit n) :
    scope.lookup c.name = none ∧ c.visible = scope.names ∧
      ∃ k ∈ visits t scope.binds limit n, k.budget ≠ 0 ∧
        c.location = t.location (k.form t).site ∧
        ∃ ident, (k.form t).shape = .name ident ∧ ident.name = c.name := by
  obtain ⟨k, hk, hcomplaint⟩ := List.mem_filterMap.mp h
  unfold Visit.complaint? at hcomplaint
  split at hcomplaint
  · cases hcomplaint
  · rename_i hbudget
    obtain ⟨hnone, hplace, hvisible, hname⟩ := Form.complaint?_eq_some hcomplaint
    exact ⟨hnone, hvisible, k, hk, hbudget, hplace, hname⟩

end Fold

namespace Evaluator

open Complaint (Answers answered)

/-! ## Plain folding beside an evaluator -/

@[simp] theorem writeReports_nil (l : Log.Logger) : l.writeReports [] = "" := rfl

@[simp] private theorem writeReports_append (l : Log.Logger) (reports more : List Report) :
    l.writeReports (reports ++ more) = l.writeReports reports ++ l.writeReports more := by
  simp [Log.Logger.writeReports, Log.Logger.writeAll]

@[simp] theorem writeReports_unresolved (l : Log.Logger) (c : Complaint) :
    l.writeReports [.unresolved c] = "" := rfl

private theorem writeReports_folded {l : Log.Logger} (h : ¬l.isEnabled .trace) (shape : Shape)
    (place : Location) (v : Value) : l.writeReports [.folded shape place v] = "" := by
  simp [Log.Logger.writeReports, Log.Logger.writeAll, Log.Logger.write, Log.Record.ofReport?, h]

variable {e : Evaluator} {p : Prop}

/-- The state of an evaluator and that of plain folding, the latter muted in the same way if `p`:
the log has got its share of the reports and, if `p`, the sink has got a diagnostic for each
complaint. -/
structure Shows (e : Evaluator) (p : Prop) (s : State) (t : Fold.State) : Prop where
  scope : s.scope = t.scope
  warned : s.warned = t.warned
  log : s.log = e.logger.writeReports t.reports.toList
  diagnostics : p → Answers e.suggest (Report.complaints t.reports.toList) s.diagnostics

/-- An evaluator that broke down: the sink has got a diagnostic for each complaint of plain folding
up to one whose search breaks down. -/
def Stopped (e : Evaluator) (s : State) (cs : List Complaint) : Prop :=
  ∃ told c rest, cs = told ++ c :: rest ∧ Answers e.suggest told s.diagnostics ∧
    c.diagnostic? e.suggest = none

theorem Stopped.append {s : State} {cs : List Complaint} (h : e.Stopped s cs)
    (more : List Complaint) : e.Stopped s (cs ++ more) := by
  obtain ⟨told, c, rest, rfl, hanswers, hnone⟩ := h
  exact ⟨told, c, rest ++ more, by simp, hanswers, hnone⟩

/-- An evaluator that does in its state what plain folding does, which only adds to its reports, or
breaks down. -/
structure Follows (e : Evaluator) (p : Prop) (α : Type) (x : e.Run α) (y : Fold.Run α) : Prop where
  adds (t : Fold.State) : ∃ new, Report.complaints (y t).2.reports.toList =
    Report.complaints t.reports.toList ++ new
  step {s : State} {t : Fold.State} (h : Shows e p s t) :
    ((x s).1 = some (y t).1 ∧ Shows e p (x s).2 (y t).2) ∨
      ((x s).1 = none ∧ (p → e.Stopped (x s).2 (Report.complaints (y t).2.reports.toList)))

private theorem bind_some {α β : Type} {x : e.Run α} {s : State} {a : α} (h : (x s).1 = some a)
    (f : α → e.Run β) : (x >>= f) s = f a (x s).2 := by
  have hbind : (x >>= f) s = (match (x s).1 with
    | some a => f a
    | none => (pure none : StateM State (Option β))) (x s).2 := rfl
  rw [hbind, h]

private theorem bind_none {α β : Type} {x : e.Run α} {s : State} (h : (x s).1 = none)
    (f : α → e.Run β) : (x >>= f) s = (none, (x s).2) := by
  have hbind : (x >>= f) s = (match (x s).1 with
    | some a => f a
    | none => (pure none : StateM State (Option β))) (x s).2 := rfl
  rw [hbind, h]
  rfl

private theorem congruence_follows (e : Evaluator) (p : Prop) : Congruence (e.Follows p) where
  pure a := ⟨fun t => ⟨[], by simp⟩, fun h => .inl ⟨rfl, h⟩⟩
  bind := by
    intro α β x y f g hx hf
    refine ⟨fun t => ?_, fun {s t} h => ?_⟩
    · obtain ⟨new, hnew⟩ := hx.adds t
      obtain ⟨more, hmore⟩ := (hf (y t).1).adds (y t).2
      exact ⟨new ++ more, by rw [Run.bind_apply, hmore, hnew, List.append_assoc]⟩
    · rw [Run.bind_apply]
      obtain ⟨hvalue, hshows⟩ | ⟨hnone, hstopped⟩ := hx.step h
      · rw [bind_some hvalue]
        exact (hf (y t).1).step hshows
      · rw [bind_none hnone]
        obtain ⟨more, hmore⟩ := (hf (y t).1).adds (y t).2
        exact .inr ⟨rfl, fun hp => hmore ▸ (hstopped hp).append more⟩

private theorem tell_unresolved {c : Complaint} {d : Diagnostic}
    (h : c.diagnostic? e.suggest = some d) (s : State) :
    e.tell (.unresolved c) s = (some (), { s with diagnostics := s.diagnostics ++ [d] }) := by
  simp only [tell, h]

private theorem tell_unresolved_none {c : Complaint} (h : c.diagnostic? e.suggest = none)
    (s : State) : e.tell (.unresolved c) s = (none, s) := by
  simp only [tell, h]

/-- Reports are all passed on, or those before a complaint whose search breaks down. -/
theorem tellAll_cases (e : Evaluator) (rs : List Report) (s : State) :
    (∃ ds, Answers e.suggest (Report.complaints rs) ds ∧
      rs.forM e.tell s = (some (), { s with
        diagnostics := s.diagnostics ++ ds
        log := s.log ++ e.logger.writeReports rs })) ∨
    ∃ told c rest ds, Report.complaints rs = told ++ c :: rest ∧ Answers e.suggest told ds ∧
      c.diagnostic? e.suggest = none ∧ (rs.forM e.tell s).1 = none ∧
      (rs.forM e.tell s).2.diagnostics = s.diagnostics ++ ds := by
  induction rs generalizing s with
  | nil => exact .inl ⟨[], .nil, by simp; rfl⟩
  | cons r rs ih =>
    have hcons : (r :: rs).forM e.tell s = (e.tell r >>= fun _ => rs.forM e.tell) s := rfl
    rw [hcons]
    have hlog : e.logger.writeReports (r :: rs) =
        e.logger.writeReports [r] ++ e.logger.writeReports rs :=
      writeReports_append e.logger [r] rs
    cases r with
    | unresolved c =>
      cases hd : c.diagnostic? e.suggest with
      | none =>
        rw [bind_none (by rw [tell_unresolved_none hd]), tell_unresolved_none hd]
        exact .inr ⟨[], c, Report.complaints rs, [], rfl, .nil, hd, rfl, (List.append_nil _).symm⟩
      | some d =>
        rw [bind_some (by rw [tell_unresolved hd]), tell_unresolved hd]
        obtain ⟨ds, hanswers, heq⟩ | ⟨told, c', rest, ds, hcs, hanswers, hnone, hstop, hds⟩ :=
          ih { s with diagnostics := s.diagnostics ++ [d] }
        · refine .inl ⟨d :: ds, .cons hd hanswers, ?_⟩
          rw [heq, hlog]
          simp
        · refine .inr ⟨c :: told, c', rest, d :: ds, ?_, .cons hd hanswers, hnone, hstop, ?_⟩
          · exact congrArg (c :: ·) hcs
          · exact hds.trans (by simp)
    | tooDeepToFold | tooDeepToLower | folded | lowered | substituted =>
      rw [bind_some rfl]
      obtain ⟨ds, hanswers, heq⟩ | hstopped := ih _
      · refine .inl ⟨ds, hanswers, ?_⟩
        rw [heq, hlog]
        simp [tell, String.append_assoc]
      · exact .inr hstopped

/-- A run is followed when it adds from any state the reports that it makes from a state without
any, as far as the log and, if `p`, the sink can tell. -/
theorem watch_follows {α : Type} {x y : Fold.Run α}
    (h : ∀ t : Fold.State, ∃ new : List Report,
      let r := x { scope := t.scope, warned := t.warned }
      (y t).1 = r.1 ∧ (y t).2 = { r.2 with reports := t.reports ++ new } ∧
        e.logger.writeReports new = e.logger.writeReports r.2.reports.toList ∧
        (p → Report.complaints new = Report.complaints r.2.reports.toList)) :
    e.Follows p α (e.watch x) y := by
  refine ⟨fun t => ?_, fun {s t} hst => ?_⟩
  · obtain ⟨new, _, hstate, _⟩ := h t
    exact ⟨Report.complaints new, by simp [hstate]⟩
  obtain ⟨new, hvalue, hstate, hlog, hsink⟩ := h t
  rw [← hst.scope, ← hst.warned] at hvalue hstate hlog hsink
  rw [hvalue, hstate]
  have hwatch : e.watch x s =
      ((x { scope := s.scope, warned := s.warned }).2.reports.toList.forM e.tell >>=
        fun _ => (pure (x { scope := s.scope, warned := s.warned }).1 : e.Run α))
      { s with
        scope := (x { scope := s.scope, warned := s.warned }).2.scope
        warned := (x { scope := s.scope, warned := s.warned }).2.warned } := rfl
  generalize x { scope := s.scope, warned := s.warned } = r at hlog hsink hwatch ⊢
  obtain ⟨ds, hanswers, heq⟩ | ⟨told, c, rest, ds, hcs, hanswers, hnone, hstop, hds⟩ :=
    tellAll_cases e r.2.reports.toList { s with scope := r.2.scope, warned := r.2.warned }
  · rw [bind_some (congrArg Prod.fst heq), heq] at hwatch
    rw [hwatch]
    refine .inl ⟨rfl, rfl, rfl, ?_, fun hp => ?_⟩
    · calc s.log ++ e.logger.writeReports r.2.reports.toList
        _ = e.logger.writeReports t.reports.toList ++ e.logger.writeReports new := by
          rw [hst.log, hlog]
        _ = e.logger.writeReports (t.reports ++ new).toList := by
          rw [Array.toList_appendList, writeReports_append]
    · rw [Array.toList_appendList, Report.complaints_append, hsink hp]
      exact List.rel_append (hst.diagnostics hp) hanswers
  · rw [bind_none hstop] at hwatch
    rw [hwatch]
    refine .inr ⟨rfl, fun hp => ?_⟩
    refine ⟨Report.complaints t.reports.toList ++ told, c, rest, ?_, ?_, hnone⟩
    · rw [Array.toList_appendList, Report.complaints_append, hsink hp, hcs, List.append_assoc]
    · rw [hds]
      exact List.rel_append (hst.diagnostics hp) hanswers

private theorem storeStep_follows (slot : Option Nat) (v : Value) :
    e.Follows p Unit (e.watch (Fold.storeStep slot v)) (Fold.storeStep slot v) := by
  apply watch_follows
  intro t
  refine ⟨[], ?_⟩
  cases slot with
  | none => simp [Fold.storeStep]
  | some slot => by_cases hv : v.isValid <;> simp [Fold.storeStep, hv]

private theorem report_follows (r : Report) :
    e.Follows p Unit (e.watch (Fold.report r)) (Fold.report r) := by
  apply watch_follows
  intro t
  exact ⟨[r], by simp [Fold.report]⟩

/-- A folded node that is not worth a record need not be reported. -/
theorem folded_follows (shape : Shape) (place : Location) (v : Value) :
    e.Follows p Unit (e.trace (.folded shape place v))
      (Fold.report (.folded shape place v)) := by
  unfold trace
  split
  · exact report_follows _
  · rename_i htrace
    have hwritten (t : Fold.State) :
        e.logger.writeReports (t.reports.push (.folded shape place v)).toList =
          e.logger.writeReports t.reports.toList := by
      simp [writeReports_folded htrace]
    have hgiven (t : Fold.State) :
        Report.complaints (t.reports.push (.folded shape place v)).toList =
          Report.complaints t.reports.toList := by
      simp [Report.complaints]
    refine ⟨fun t => ⟨[], (hgiven t).trans (List.append_nil _).symm⟩, fun {s t} h => .inl ⟨rfl, ?_⟩⟩
    exact ⟨h.scope, h.warned, h.log.trans (hwritten t).symm,
      fun hp => (hgiven t).symm ▸ h.diagnostics hp⟩

private theorem warn_follows (tree : Tree) (mute mute' : Bool) (limit : Nat) (n : NodeId) :
    e.Follows p Unit (e.watch (Fold.warn ⟨tree, mute, limit⟩ n))
      (Fold.warn ⟨tree, mute', limit⟩ n) := by
  apply watch_follows
  intro t
  obtain ⟨scope, reports, warned⟩ := t
  cases warned with
  | true => exact ⟨[], by simp [Fold.warn]⟩
  | false => exact ⟨[.tooDeepToFold limit (tree.location n)], by simp [Fold.warn, Fold.report]⟩

private theorem unresolved_follows (tree : Tree) (mute mute' : Bool) (limit : Nat) (site : NodeId)
    (name : String) :
    e.Follows (mute = mute') Unit (e.watch (Fold.unresolved ⟨tree, mute, limit⟩ site name))
      (Fold.unresolved ⟨tree, mute', limit⟩ site name) := by
  apply watch_follows
  intro t
  cases mute' with
  | true =>
    refine ⟨[], ?_⟩
    cases mute <;> simp [Fold.unresolved, Fold.report]
  | false =>
    refine ⟨[.unresolved ⟨name, tree.location site, t.scope.names⟩], ?_⟩
    cases mute <;> simp [Fold.unresolved, Fold.report]

private theorem primitives_follows (e : Evaluator) (p : Prop) : Fold.Primitives (e.Follows p) where
  toCongruence := congruence_follows e p
  read := by
    intro α f g hf
    refine ⟨fun t => (hf t t rfl).adds t, fun {s t} h => ?_⟩
    have hread := hf { scope := s.scope, warned := s.warned } t h.scope
    have hwatch : (liftM (get : Fold.Run Fold.State) : e.Run Fold.State) s =
        (some { scope := s.scope, warned := s.warned }, s) := rfl
    rw [bind_some (congrArg Prod.fst hwatch), hwatch]
    exact hread.step h
  store := storeStep_follows

private theorem fold_follows (e : Evaluator) (tree : Tree) (mute mute' : Bool) (limit budget : Nat)
    (n : NodeId) :
    e.Follows (mute = mute') Fold.Operand (e.fold ⟨tree, mute, limit⟩ budget n)
      (Fold.fold ⟨tree, mute', limit⟩ budget n) := by
  have hcongr := congruence_follows e (mute = mute')
  induction budget generalizing n with
  | zero => exact hcongr.bind (warn_follows tree mute mute' limit n) fun _ => hcongr.pure _
  | succ budget ih =>
    have hvisit := Fold.visit_related (primitives_follows e (mute = mute')) (Form.decode tree n)
      (fun name => unresolved_follows tree mute mute' limit _ name) fun m _ => ih m
    apply hcongr.bind hvisit
    intro x
    apply hcongr.bind (folded_follows _ _ _)
    exact fun _ => hcongr.pure x

private theorem fold_step (e : Evaluator) (tree : Tree) (n : NodeId) (scope : Scope)
    (mute mute' : Bool) :
    let out := e.evaluate tree n scope mute
    let plain := Fold.evaluate ⟨tree, mute', e.limit⟩ n scope
    (out.value = some plain.value ∧ out.scope = plain.scope ∧
      out.log = e.logger.writeReports plain.reports ∧
      ((mute || !e.sink) = mute' →
        Answers e.suggest (Report.complaints plain.reports) out.diagnostics)) ∨
    (out.value = none ∧
      ((mute || !e.sink) = mute' → e.Stopped out.toState (Report.complaints plain.reports))) := by
  intro out plain
  have hstart : Shows e ((mute || !e.sink) = mute') { scope } { scope } :=
    ⟨rfl, rfl, rfl, fun _ => .nil⟩
  have hfollows := fold_follows e tree (mute || !e.sink) mute' e.limit e.limit n
  refine (hfollows.step hstart).imp (fun ⟨hvalue, hshows⟩ => ?_) fun ⟨hnone, hstopped⟩ => ?_
  · exact ⟨congrArg (Option.map Fold.Operand.value) hvalue, hshows.scope, hshows.log,
      hshows.diagnostics⟩
  · exact ⟨congrArg (Option.map Fold.Operand.value) hnone, hstopped⟩

/-- An evaluator that does not break down gives the value and the scope of plain folding, and the
log gets what the logger writes of its reports. -/
theorem evaluate_shows (e : Evaluator) (tree : Tree) (n : NodeId) (scope : Scope)
    (mute mute' : Bool) :
    let out := e.evaluate tree n scope mute
    let plain := Fold.evaluate ⟨tree, mute', e.limit⟩ n scope
    out.value.isSome = true →
      out.value = some plain.value ∧ out.scope = plain.scope ∧
        out.log = e.logger.writeReports plain.reports := by
  intro out plain hsome
  obtain ⟨hvalue, hscope, hlog, _⟩ | ⟨hnone, _⟩ := fold_step e tree n scope mute mute'
  · exact ⟨hvalue, hscope, hlog⟩
  · have hvalue : out.value = none := hnone
    simp [hvalue] at hsome

/-- An evaluator breaks down if and only if a search for one of the complaints does that it makes
diagnostics of, and the sink gets the diagnostics up to there. -/
theorem evaluate_complaints (e : Evaluator) (tree : Tree) (n : NodeId) (scope : Scope)
    (mute : Bool) :
    let out := e.evaluate tree n scope mute
    let cs := if mute || !e.sink then [] else Fold.complaints tree scope e.limit n
    (out.value.isSome = true ↔ ∀ c ∈ cs, (e.suggest c.name c.visible).isSome = true) ∧
      out.diagnostics = answered e.suggest cs := by
  intro out cs
  have hcs : Report.complaints
      (Fold.evaluate ⟨tree, mute || !e.sink, e.limit⟩ n scope).reports = cs :=
    Fold.evaluate_complaints_eq ⟨tree, mute || !e.sink, e.limit⟩ n scope
  simp only [← Complaint.isSome_diagnostic?]
  obtain ⟨hvalue, _, _, hanswers⟩ | ⟨hnone, hstopped⟩ :=
    fold_step e tree n scope mute (mute || !e.sink)
  · have hall := hanswers rfl
    rw [hcs] at hall
    have hreturned : out.value.isSome = true := by
      rw [show out.value = _ from hvalue]
      rfl
    exact ⟨iff_of_true hreturned hall.isSome, hall.answered_eq.symm⟩
  · obtain ⟨told, c, rest, hsplit, htold, hc⟩ := hstopped rfl
    rw [hcs] at hsplit
    have hbroken : ¬out.value.isSome = true := by
      rw [show out.value = _ from hnone]
      exact Bool.false_ne_true
    have hmem : c ∈ cs := by simp [hsplit]
    refine ⟨iff_of_false hbroken fun hall => ?_, ?_⟩
    · have hsome := hall c hmem
      simp [hc] at hsome
    · rw [hsplit, Complaint.answered_append htold, answered, hc]
      exact (List.append_nil _).symm

/-- Evaluators with the same limit that do not break down give the same value and leave the same
scope, whether or not they are muted or have a sink, and whatever their loggers and searches are;
the log is what the logger writes of the reports of plain folding.  Without diagnostics an evaluator
never breaks down; else it does so if and only if the search for one of the names does that it
visits and the scope does not bind.  The sink gets, in order, the diagnostics of these visits up to
there. -/
theorem observation_inert (e e' : Evaluator) (hlimit : e.limit = e'.limit) (tree : Tree)
    (n : NodeId) (scope : Scope) (mute mute' : Bool) :
    let out := e.evaluate tree n scope mute
    let out' := e'.evaluate tree n scope mute'
    let plain := Fold.evaluate { tree, limit := e.limit } n scope
    (out.value.isSome = true → out'.value.isSome = true →
      out.value = out'.value ∧ out.scope = out'.scope) ∧
      (out.value.isSome = true → out.value = some plain.value ∧ out.scope = plain.scope ∧
        out.log = e.logger.writeReports plain.reports) ∧
      ((mute = true ∨ e.sink = false) → out.value.isSome = true ∧ out.diagnostics = []) ∧
      ((mute = false ∧ e.sink = true) →
        let cs := Fold.complaints tree scope e.limit n
        (out.value.isSome = true ↔ ∀ c ∈ cs, (e.suggest c.name scope.names).isSome = true) ∧
          out.diagnostics = answered e.suggest cs) ∧
      ((mute = false ∧ e.sink = true) → (mute' = false ∧ e'.sink = true) →
        e.suggest = e'.suggest → out.diagnostics = out'.diagnostics) ∧
      ∀ d ∈ out.diagnostics, d.kind = .unresolvedName ∧ scope.lookup d.name = none ∧
        ∃ k ∈ Fold.visits tree scope.binds e.limit n, k.budget ≠ 0 ∧
          d.location = tree.location (k.form tree).site ∧
          ∃ ident, (k.form tree).shape = .name ident ∧ ident.name = d.name := by
  intro out out' plain
  have hshows := evaluate_shows e tree n scope mute false
  have hshows' := evaluate_shows e' tree n scope mute' false
  rw [← hlimit] at hshows'
  obtain ⟨hreturns, hsink⟩ := evaluate_complaints e tree n scope mute
  obtain ⟨_, hsink'⟩ := evaluate_complaints e' tree n scope mute'
  refine ⟨?_, hshows, ?_, ?_, ?_, ?_⟩
  · intro hsome hsome'
    obtain ⟨hvalue, hscope, _⟩ := hshows hsome
    obtain ⟨hvalue', hscope', _⟩ := hshows' hsome'
    exact ⟨hvalue.trans hvalue'.symm, hscope.trans hscope'.symm⟩
  · intro h
    have hquiet : (mute || !e.sink) = true := by rcases h with h | h <;> simp [h]
    rw [if_pos hquiet] at hreturns hsink
    exact ⟨hreturns.mpr (List.forall_mem_nil _), hsink⟩
  · intro ⟨hm, hs⟩ cs
    have hheard : ¬(mute || !e.sink) = true := by simp [hm, hs]
    rw [if_neg hheard] at hreturns hsink
    refine ⟨hreturns.trans (forall₂_congr fun c hc => ?_), hsink⟩
    rw [(Fold.mem_complaints hc).2.1]
  · intro ⟨hm, hs⟩ ⟨hm', hs'⟩ hsuggest
    have hsame : out.diagnostics = _ := hsink
    have hsame' : out'.diagnostics = _ := hsink'
    rw [hsame, hsame', hlimit, hsuggest]
    simp [hm, hs, hm', hs']
  · intro d hd
    rw [show out.diagnostics = _ from hsink] at hd
    obtain ⟨c, hc, hdiagnostic⟩ := Complaint.mem_answered hd
    obtain ⟨hkind, hname, hlocation⟩ := Complaint.diagnostic?_eq_some hdiagnostic
    split at hc
    · cases hc
    · obtain ⟨hnone, _, hvisit⟩ := Fold.mem_complaints hc
      rw [hname, hlocation]
      exact ⟨hkind, hnone, hvisit⟩

open Tree.Build in
/-- `x++ + x[y] - z`, with `y` in line 3 and `z` in line 4. -/
def stepThenNames : NodeId × Tree :=
  (do
    let step ← postStep .incDecPlusPlus ["x"]
    let sum ← binary step .binOpPlus (← bitSelect "x" (← identAt 3 7 ["y"]))
    binary sum .binOpMinus (← identAt 4 1 ["z"]) : Tree.Build NodeId) ⟨"a.sv", #[]⟩

/-- `x` alone is bound.  The names in the select and behind it are reported to who listens, and the
value and the cell of `x` are the same when nobody does. -/
theorem observation_inert_stepThenNames :
    let n := stepThenNames.1
    let tree := stepThenNames.2
    let scope := Scope.empty.enter.set "x" (.signed 5)
    let listening : Evaluator := { sink := true, logger := .make { level := .trace }, limit := 8 }
    let alone : Evaluator := { limit := 8 }
    let heard := listening.evaluate tree n scope false
    let unheard := alone.evaluate tree n scope true
    heard.value.isSome = true ∧ heard.value = unheard.value ∧ heard.scope = unheard.scope ∧
      unheard.diagnostics = [] ∧
      heard.diagnostics.map (fun d => (d.name, d.location.line)) = [("y", 3), ("z", 4)] := by
  intro n tree scope listening alone heard unheard
  obtain ⟨hsame, -, -, hheard, -⟩ := observation_inert listening alone rfl tree n scope false true
  obtain ⟨-, -, hunheard, -⟩ := observation_inert alone listening rfl tree n scope true false
  obtain ⟨hreturns, hnames⟩ := hheard ⟨rfl, rfl⟩
  obtain ⟨hquiet, hnone⟩ := hunheard (.inl rfl)
  have hreturned : heard.value.isSome = true := hreturns.mpr (by decide +kernel)
  obtain ⟨hvalue, hscope⟩ := hsame hreturned hquiet
  refine ⟨hreturned, hvalue, hscope, hnone, ?_⟩
  rw [show heard.diagnostics = _ from hnames]
  decide +kernel

open Tree.Build in
/-- With a name in the scope that has a zero byte behind a typo, the search for a hint breaks down:
an evaluator that reports the typo does not return, and a muted one does. -/
theorem observation_inert_zeroByte :
    let typo : NodeId × Tree := (ident ["a"] : Tree.Build NodeId) ⟨"a.sv", #[]⟩
    let scope := Scope.empty.enter.set "a\x00b" (.signed 1)
    let listening : Evaluator := { sink := true }
    let heard := listening.evaluate typo.2 typo.1 scope false
    let muted := listening.evaluate typo.2 typo.1 scope true
    heard.value.isSome = false ∧ muted.value.map (·.isValid) = some false := by
  decide +kernel

end Evaluator

end HdlExpr
