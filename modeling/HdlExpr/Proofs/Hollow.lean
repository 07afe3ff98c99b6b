import Mathlib.Algebra.Order.BigOperators.Group.List
import HdlExpr.Proofs.Batch.Workers
import HdlExpr.Proofs.Observation

/-!
# Hollow expressions

An expression that is lowered to nothing is hollow: it is cut off or empty, or a lone event or
lvalue over a hollow operand.  Folding looks at such expressions in its own way, and passes events
over, but comes to the same: there is no value, nothing to tell and nothing to store.  So in a batch
whatever has no node has no value.
-/

namespace HdlExpr

/-- Whether a shape says nothing, where `hollow` tells it of operands. -/
def Shape.isHollow (hollow : NodeId → Bool) : Shape → Bool
  | .empty => true
  | .unary op _ => op.unaryOp?.isNone
  | .literal tag text => (tag.literalText? text).isNone
  | .events first [] => hollow first
  | .lvalue operand none => hollow operand
  | _ => false

/-- Whether a node says nothing to who looks at most `limit` deep. -/
def Tree.isHollow (t : Tree) : Nat → NodeId → Bool
  | 0, _ => true
  | limit + 1, n => (Form.decode t n).shape.isHollow (t.isHollow limit)

/-! ## Lowering -/

namespace Lower

open Ir (Node)

private theorem visit_isNone {recur : NodeId → Nat → Substitution → Run (Option Node)}
    {hollow : NodeId → Bool} (h : ∀ n parent σ s, (recur n parent σ s).1.isNone = hollow n)
    (form : Form) (parent : Nat) (σ : Substitution) (s : State) :
    (visit recur form parent σ s).1.isNone = form.shape.isHollow hollow := by
  obtain ⟨node, site, shape⟩ := form
  cases shape with
  | empty | binary | call | concat => rfl
  | unary op operand =>
    simp only [visit, Shape.isHollow]
    cases op.unaryOp? <;> rfl
  | events first rest =>
    cases rest with
    | nil => exact h first parent σ s
    | cons => rfl
  | literal tag text =>
    simp only [visit, Shape.isHollow, visitLiteral]
    cases tag.literalText? text <;> rfl
  | name ident =>
    simp only [visit, visitName]
    cases ident.select with
    | none =>
      simp only [visitPlainName]
      cases σ ident.name <;> rfl
    | bit | part | indexed => rfl
  | lvalue operand op =>
    cases op with
    | none => exact h operand parent σ s
    | some => rfl

private theorem lowerNode_isNone (c : Context) (budget : Nat) (n : NodeId) (parent : Nat)
    (σ : Substitution) (s : State) :
    (lowerNode c budget n parent σ s).1.isNone = c.tree.isHollow budget n := by
  induction budget generalizing n parent σ s with
  | zero => rfl
  | succ budget ih => exact visit_isNone ih (Form.decode c.tree n) parent σ s

/-- What is lowered to nothing is hollow, whatever names stand for and whatever was made before. -/
theorem lower_isNone (t : Tree) (limit : Nat) (n : NodeId) (parent : Nat) (σ : Substitution)
    (factory : Ir.Factory) :
    (lower ⟨t, limit⟩ n parent σ factory).node.isNone = t.isHollow limit n :=
  lowerNode_isNone ⟨t, limit⟩ limit n parent σ { factory }

end Lower

/-! ## Folding -/

theorem Tag.literalValue?_eq_none {tag : Tag} {text : String} (h : tag.literalText? text = none) :
    tag.literalValue? text = none := by
  cases tag <;> simp_all [Tag.literalText?, Tag.literalValue?, Tag.scalarBit?]

namespace Fold

open Run

/-- From one state to another nothing was stored and no diagnostic reported. -/
structure Quiet (s s' : State) : Prop where
  scope : s'.scope = s.scope
  diagnostics : Report.complaints s'.reports.toList = Report.complaints s.reports.toList

private theorem warn_quiet (c : Context) (n : NodeId) (s : State) : Quiet s (warn c n s).2 := by
  refine ⟨warn_scope c n s, ?_⟩
  rw [warn_reports]
  cases s.warned <;> simp [Report.complaints]

/-- A form that does not step its operand is left as its operands leave it. -/
theorem Quiet.closed {s s' : State} (h : Quiet s s') (c : Context) {form : Form} {xs : List Operand}
    (scope : Scope) (hstep : stepped form.shape xs s'.scope = s'.scope) :
    Quiet s (Fold.closed c form scope xs s') := by
  refine ⟨hstep.trans h.scope, ?_⟩
  rw [closed_reports, Report.complaints_append, h.diagnostics]
  exact List.append_nil _

/-- A hollow shape has no operands to fold and no value, or it is an lvalue. -/
theorem isHollow_cases {hollow : NodeId → Bool} {shape : Shape}
    (h : shape.isHollow hollow = true) :
    (∀ bound scope, operands bound shape = [] ∧ result scope shape [] = .absent) ∧
        (∀ ident, shape ≠ .name ident) ∨
      ∃ operand, shape = .lvalue operand none ∧ hollow operand = true := by
  cases shape with
  | empty => exact .inl ⟨fun _ _ => ⟨rfl, rfl⟩, by simp⟩
  | unary op operand =>
    have hop : op.unaryOp? = none := by simpa [Shape.isHollow] using h
    exact .inl ⟨fun _ _ => ⟨by simp [operands, hop], rfl⟩, by simp⟩
  | events first rest => exact .inl ⟨fun _ _ => ⟨rfl, rfl⟩, by simp⟩
  | literal tag text =>
    have hvalue := Tag.literalValue?_eq_none (Option.isNone_iff_eq_none.mp h)
    exact .inl ⟨fun _ _ => ⟨rfl, by simp [result, hvalue, Operand.absent]⟩, by simp⟩
  | lvalue operand op =>
    cases op with
    | none => exact .inr ⟨operand, rfl, h⟩
    | some => cases h
  | binary | name | call | concat => cases h

private theorem fold_of_isHollow (c : Context) {budget : Nat} {n : NodeId}
    (h : c.tree.isHollow budget n = true) (s : State) :
    (fold c budget n s).1 = .absent ∧ Quiet s (fold c budget n s).2 := by
  induction budget generalizing n s with
  | zero => exact ⟨rfl, warn_quiet c n s⟩
  | succ budget ih =>
    rw [fold_succ]
    -- Only an lvalue looks at its operand; a lone event is passed over, hollow or not.
    rcases isHollow_cases h with ⟨hnone, hname⟩ | ⟨operand, hshape, hoperand⟩
    · obtain ⟨hoperands, hresult⟩ := hnone s.scope.binds s.scope
      have hopened : opened c (Form.decode c.tree n) s = s :=
        opened_of_bound fun ident hident => absurd hident (hname ident)
      have hquiet : Quiet s s := ⟨rfl, rfl⟩
      simp only [hoperands, hopened, List.mapM_nil, pure_apply, hresult]
      exact ⟨trivial, hquiet.closed c s.scope (by simp [stepped])⟩
    · obtain ⟨habsent, hquiet⟩ := ih hoperand s
      have hopened : opened c (Form.decode c.tree n) s = s :=
        opened_of_bound fun ident hident => by cases hshape.symm.trans hident
      simp only [hshape, hopened, operands, List.mapM_cons, List.mapM_nil, bind_apply, pure_apply,
        habsent]
      exact ⟨rfl, hquiet.closed c s.scope (by simp [stepped, step?, hshape])⟩

private theorem evaluate_of_isHollow (c : Context) {n : NodeId}
    (h : c.tree.isHollow c.limit n = true) (scope : Scope) :
    let out := evaluate c n scope
    out.value = .invalid ∧ out.scope = scope ∧ Report.complaints out.reports = [] := by
  obtain ⟨habsent, hquiet⟩ := fold_of_isHollow c h { scope }
  exact ⟨congrArg Operand.value habsent, hquiet.scope, hquiet.diagnostics⟩

end Fold

theorem Evaluator.evaluate_of_isHollow (e : Evaluator) {tree : Tree} {n : NodeId}
    (h : tree.isHollow e.limit n = true) (scope : Scope) (mute : Bool) :
    let out := e.evaluate tree n scope mute
    out.value = some .invalid ∧ out.scope = scope ∧ out.diagnostics = [] := by
  intro out
  obtain ⟨hvalue, hscope, hquiet⟩ :=
    Fold.evaluate_of_isHollow ⟨tree, mute || !e.sink, e.limit⟩ h scope
  -- There is nothing to complain of, so there is no search that could break down.
  obtain ⟨hwhole, hdiagnostics⟩ := e.evaluate_complaints tree n scope mute
  have hcs := Fold.evaluate_complaints_eq ⟨tree, mute || !e.sink, e.limit⟩ n scope
  simp only [← hcs, hquiet] at hwhole hdiagnostics
  obtain ⟨hvalue', hscope', -⟩ :=
    evaluate_shows e tree n scope mute (mute || !e.sink) (hwhole.mpr nofun)
  exact ⟨by rw [hvalue', hvalue], hscope'.trans hscope, hdiagnostics⟩

/-! ## Results of a batch

What holds of the result of every expression holds of all results that workers have and hand
over. -/

namespace Batch

variable {P : Result → Prop} {settings : Settings}

def Outcome.Every (P : Result → Prop) : Outcome → Prop
  | .ok file => ∀ result ∈ file.results, P result
  | .error _ => True

def Stage.Every (P : Result → Prop) : Stage → Prop
  | .waiting | .reading _ | .loaded _ _ | .withdrawn => True
  | .processing work => ∀ result ∈ work.results, P result
  | .counting outcome | .reporting outcome | .finished outcome => Outcome.Every P outcome

def Run.Every (P : Result → Prop) (r : Run) : Prop :=
  ∀ entry ∈ r.files, ∀ result ∈ entry.2.results, P result

theorem Run.Every.concat {r : Run} (h : r.Every P) {file : File}
    (hfile : ∀ result ∈ file.results, P result) (place : Nat) :
    ∀ entry ∈ r.files ++ [(place, file)], ∀ result ∈ entry.2.results, P result := by
  intro entry hentry
  rcases List.mem_append.mp hentry with hold | hnew
  · exact h entry hold
  · rw [List.mem_singleton.mp hnew]
    exact hfile

theorem Run.Every.summary {r : Run} (h : r.Every P) (paths : List String) :
    ∀ file ∈ (r.summary paths).files, ∀ result ∈ file.results, P result := by
  intro file hfile
  obtain ⟨place, -, hlookup⟩ := List.mem_filterMap.mp hfile
  obtain ⟨before, after, hfiles, -⟩ := List.lookup_eq_some_iff.mp hlookup
  exact h (place, file) (by simp [hfiles])

section Every

variable (hexpression : ∀ tree s e result,
  (processExpression settings tree s e).1 = some result → P result)

include hexpression

private theorem next_every {work : Work} (hwork : ∀ result ∈ work.results, P result)
    (e : Document.Expression) (left : List Document.Expression) (r : Run) :
    ∀ result ∈ ((work.next settings e left r).1.getD work).results, P result := by
  rcases hp : processExpression settings work.document.tree (work.state r) e with
    ⟨_ | result, after⟩
  · simp only [Work.next, hp]
    exact hwork
  · have hresult : P result := hexpression _ _ e result (congrArg Prod.fst hp)
    simp only [Work.next, hp]
    exact List.forall_mem_append.mpr ⟨hwork, List.forall_mem_singleton.mpr hresult⟩

private theorem advance_every {w : Worker} {r : Run} (hw : w.stage.Every P) (hr : r.Every P) :
    (w.advance settings r).1.stage.Every P ∧ (w.advance settings r).2.Every P := by
  obtain ⟨place, path, stage⟩ := w
  cases stage with
  | waiting =>
    simp only [Worker.advance]
    split
    · exact ⟨trivial, hr⟩
    · split <;> exact ⟨trivial, hr⟩
  | reading reader =>
    have hhome (r : Run) (entry : Nat) (d : Document) (h : r.Every P) :
        (r.home entry d).2.Every P := by
      unfold Run.home
      split <;> exact h
    simp only [Worker.advance]
    split
    · exact ⟨trivial, hhome _ _ _ hr⟩
    · exact ⟨trivial, hr⟩
    · exact ⟨trivial, hr⟩
  | loaded d home => exact ⟨List.forall_mem_nil P, hr⟩
  | processing work =>
    simp only [Worker.advance]
    split
    · exact ⟨hw, hr⟩
    case h_2 e left _ =>
      split
      · exact ⟨trivial, hr⟩
      · refine ⟨next_every hexpression hw e left r, ?_⟩
        unfold Work.next
        exact hr
  | counting o => exact ⟨hw, hr⟩
  | reporting o =>
    cases o with
    | ok file => exact ⟨hw, hr.concat hw place⟩
    | error failure => exact ⟨trivial, hr⟩
  | finished o => exact ⟨hw, hr⟩
  | withdrawn => exact ⟨trivial, hr⟩

private theorem turn_every {s : Crew} (hs : s.run.Every P)
    (hworkers : ∀ w ∈ s.workers, w.stage.Every P) (i : Nat) :
    (s.turn settings i).run.Every P ∧ ∀ w ∈ (s.turn settings i).workers, w.stage.Every P := by
  cases hcrashed : s.run.crashed with
  | true =>
    rw [Crew.turn_crashed hcrashed]
    exact ⟨hs, hworkers⟩
  | false =>
    cases hi : s.workers[i]? with
    | none =>
      rw [Crew.turn_none hi]
      exact ⟨hs, hworkers⟩
    | some w =>
      obtain ⟨hstage, hrun⟩ :=
        @advance_every P settings hexpression w s.run (hworkers w (List.mem_of_getElem? hi)) hs
      rw [Crew.turn_some hcrashed hi]
      refine ⟨hrun, fun w' hw' => ?_⟩
      rcases List.mem_or_eq_of_mem_set hw' with hold | rfl
      · exact hworkers w' hold
      · exact hstage

private theorem turns_every {run : Run} (hrun : run.files = []) (paths : List String)
    (turns : List Nat) :
    (turns.foldl (Crew.turn settings) (Crew.assemble run paths)).run.Every P := by
  have hstart : ∀ w ∈ (Crew.assemble run paths).workers, w.stage.Every P := by
    intro w hw
    obtain ⟨p, -, rfl⟩ := List.mem_map.mp hw
    trivial
  have hempty : (Crew.assemble run paths).run.Every P := by
    intro entry hentry
    have hmem : entry ∈ run.files := hentry
    rw [hrun] at hmem
    cases hmem
  generalize Crew.assemble run paths = s at hstart hempty
  induction turns generalizing s with
  | nil => exact hempty
  | cons i turns ih =>
    obtain ⟨hrun, hworkers⟩ := @turn_every P settings hexpression s hempty hstart i
    exact ih _ hworkers hrun

end Every

/-! ## Counts -/

/-- What has no node has no value. -/
def Result.EmptyInvalid (r : Result) : Prop := r.nodes = 0 → r.value.isValid = false

/-- Each result that is counted as empty is counted as invalid too. -/
structure Summary.EmptyInvalid (s : Summary) : Prop where
  each : ∀ file ∈ s.files, ∀ result ∈ file.results, result.EmptyInvalid
  counts : s.empty ≤ s.invalid

private theorem processExpression_emptyInvalid (settings : Settings) (tree : Tree) (s : State)
    (e : Document.Expression) (result : Result)
    (h : (processExpression settings tree s e).1 = some result) : result.EmptyInvalid := by
  obtain rfl : resultOf settings tree e s.scope s.factory = result := by
    rw [(processExpression_spec settings tree e s).1] at h
    split at h
    · exact Option.some.inj h
    · cases h
  intro hnodes
  have hnone := (nodes_eq_zero_iff _).mp hnodes
  have hhollow : tree.isHollow settings.limit e.id = true :=
    (Lower.lower_isNone tree settings.limit e.id 0 _ s.factory).symm.trans
      (Option.isNone_iff_eq_none.mpr hnone)
  have hvalue := (Fold.evaluate_of_isHollow { tree, limit := settings.limit } hhollow s.scope).1
  exact (congrArg Value.isValid hvalue).trans Value.isValid_invalid

theorem Run.Every.emptyInvalid {r : Run} (h : r.Every Result.EmptyInvalid) (paths : List String) :
    (r.summary paths).EmptyInvalid := by
  refine ⟨h.summary paths, ?_⟩
  simp only [Run.summary, summarize, total_eq_sum]
  apply List.sum_le_sum
  intro file hfile
  apply List.countP_mono_left
  intro result hresult hempty
  have hinvalid := h.summary paths file hfile result hresult (by simpa using hempty)
  simpa using hinvalid

end Batch

/-- Nothing that can be folded is lowered to nothing.  An expression that lowering makes nothing of
is hollow, and at the same limit it has no value over any scope, to which it does nothing, and no
diagnostic.  So in the summary of a batch, whatever turns its workers take and in whatever order the
paths are, every expression that is counted as empty is counted as invalid. -/
theorem lowered_to_nothing_invalid :
    (∀ (e : Evaluator) (t : Tree) (n : NodeId) (parent : Nat) (σ : Lower.Substitution)
        (factory : Ir.Factory),
      let lowered := Lower.lower ⟨t, e.limit⟩ n parent σ factory
      (lowered.node = none ↔ t.isHollow e.limit n = true) ∧
      (lowered.node = none → ∀ scope mute,
        let out := e.evaluate t n scope mute
        out.value = some .invalid ∧ out.diagnostics = [] ∧ out.scope = scope)) ∧
    (∀ settings cache canceled paths (turns : List Nat),
      let crew := turns.foldl (Batch.Crew.turn settings)
        (Batch.Crew.assemble { cache, canceled } paths)
      (crew.run.summary paths).EmptyInvalid) ∧
    ∀ settings paths order canceled,
      ((Batch.runIn settings paths order canceled).summary paths).EmptyInvalid := by
  have hturns {settings : Batch.Settings} {run : Batch.Run} (hrun : run.files = [])
      (paths : List String) (turns : List Nat) :
      ((turns.foldl (Batch.Crew.turn settings) (.assemble run paths)).run.summary
        paths).EmptyInvalid :=
    (Batch.turns_every (Batch.processExpression_emptyInvalid settings) hrun paths
      turns).emptyInvalid paths
  refine ⟨fun e t n parent σ factory => ?_, fun settings cache canceled paths turns => ?_,
    fun settings paths order canceled => ?_⟩
  · have hhollow : (Lower.lower ⟨t, e.limit⟩ n parent σ factory).node = none ↔
        t.isHollow e.limit n = true := by
      rw [← Lower.lower_isNone t e.limit n parent σ factory, Option.isNone_iff_eq_none]
    refine ⟨hhollow, fun hnone scope mute => ?_⟩
    obtain ⟨hvalue, hscope, hdiagnostics⟩ := e.evaluate_of_isHollow (hhollow.mp hnone) scope mute
    exact ⟨hvalue, hdiagnostics, hscope⟩
  · exact hturns rfl paths turns
  · obtain ⟨⟨turns, heq⟩, -⟩ :=
      @Batch.Crew.finishes_turns settings (.assemble { canceled } paths) order
    rw [Batch.runIn, heq]
    exact hturns rfl paths turns

def eventOverNothing : Tree :=
  let t : Tree := ⟨"a.sv", #[]⟩
  let t := ((t.leaf .orOperator "").2.node .variableLvalue [1]).tree
  ((t.node .eventExpression [2]).tree.node .eventExpression [3]).tree

/-- Lowering looks through the event and the lvalue to the end and finds nothing, and folding does
not look at all. -/
theorem lowered_to_nothing_invalid_eventOverNothing :
    let e : Evaluator := { sink := true, limit := 4, suggest := fun _ _ => none }
    let scope := Scope.empty.enter.set "a" (.signed 5)
    (Form.decode eventOverNothing 4).shape = .events 3 [] ∧
      (Form.decode eventOverNothing 3).shape = .lvalue 2 none ∧
      (Lower.lower ⟨eventOverNothing, 4⟩ 4 0 .none {}).node = none ∧
      (e.evaluate eventOverNothing 4 scope false).value = some .invalid ∧
      (e.evaluate eventOverNothing 4 scope false).diagnostics = [] ∧
      (e.evaluate eventOverNothing 4 scope false).scope = scope := by
  intro e scope
  have hnone : (Lower.lower ⟨eventOverNothing, 4⟩ 4 0 .none {}).node = none :=
    Option.isNone_iff_eq_none.mp (by decide +kernel)
  have hengines := lowered_to_nothing_invalid.1 e eventOverNothing 4 0 .none {}
  exact ⟨by decide +kernel, by decide +kernel, hnone, hengines.2 hnone scope false⟩

end HdlExpr
