import Mathlib.Algebra.BigOperators.Group.List.Basic
import Mathlib.Algebra.Group.Pi.Basic
import Mathlib.Algebra.GroupWithZero.Nat
import HdlExpr.Batch
import HdlExpr.Proofs.Lower.Numbering
import HdlExpr.Proofs.Observation

/-!
# Two tallies

What a batch counts while it works can be counted afterwards in the results.  The metrics and the
collector of a document are told of the same diagnostics, one at a time, and lowering an expression
counts its node as the results show it.
-/

namespace HdlExpr

/-! ## Counters -/

theorem total_eq_sum (counts : List Nat) : total counts = counts.sum := rfl

namespace Batch

open Complaint (answered)

/-- What is counted in a batch: values, nodes, diagnostics and documents. -/
inductive Counter where
  | valid
  | invalid
  | lowered
  | empty
  | nodes
  | diagnostics
  | loaded
  | failed
  deriving DecidableEq

/-- What was counted while the batch was working. -/
def number (m : Metrics) : Counter → Nat
  | .valid => m.evaluations.good
  | .invalid => m.evaluations.bad
  | .lowered => m.lowerings.good
  | .empty => m.lowerings.bad
  | .nodes => m.nodes.length
  | .diagnostics => m.diagnostics
  | .loaded => m.documents.good
  | .failed => m.documents.bad

def counts (results : List Result) (diagnostics : List Diagnostic) : Counter → Nat
  | .valid => results.countP (·.value.isValid)
  | .invalid => results.countP (!·.value.isValid)
  | .lowered => results.countP (·.nodes != 0)
  | .empty => results.countP (·.nodes == 0)
  | .nodes => total (results.map (·.nodes))
  | .diagnostics => diagnostics.length
  | .loaded | .failed => 0

@[simp] theorem counts_append (results results' : List Result) (ds ds' : List Diagnostic) :
    counts (results ++ results') (ds ++ ds') = counts results ds + counts results' ds' := by
  funext q
  cases q <;> simp [counts, total_eq_sum, Pi.add_apply]

/-- An expression without a node is one that was lowered to nothing. -/
theorem nodes_eq_zero_iff (r : Result) : r.nodes = 0 ↔ r.node = none := by
  unfold Result.nodes
  cases r.node with
  | none => simp [Ir.Node.allOf?]
  | some n => simp [Ir.Node.allOf?, Ir.Node.all_eq]

private theorem number_report (m : Metrics) (d : Diagnostic) :
    number (m.report d) = number m + counts [] [d] := by
  funext q
  cases q <;> rfl

/-- What is counted around an evaluation is what its result shows. -/
private theorem number_observe (m m' : Metrics) (r : Result) (ds : List Diagnostic)
    (h : number m' = number (m.observeLowering r.node) + counts [] ds) :
    number (m'.observeEvaluation r.value) = number m + counts [r] ds := by
  have hempty : (r.nodes == 0) = !r.node.isSome := by
    rw [Bool.eq_iff_iff, beq_iff_eq, nodes_eq_zero_iff, Bool.not_eq_true',
      Option.isSome_eq_false_iff, Option.isNone_iff_eq_none]
  have hnodes : (Ir.Node.allOf? r.node).length = r.nodes := rfl
  have hq (q : Counter) := congrFun h q
  funext q
  have hone := hq q
  cases hv : r.value.isValid <;> cases hn : r.node.isSome <;> cases q <;>
    simp [number, counts, Metrics.observeLowering, Metrics.observeEvaluation, Tally.count, total,
      bne, hempty, hnodes, hv, hn] at hone ⊢ <;> omega

theorem number_observeDocument (m : Metrics) (isLoaded : Bool) (q : Counter) :
    number (m.observeDocument isLoaded) q =
      number m q + if q = (if isLoaded then .loaded else .failed) then 1 else 0 := by
  cases isLoaded <;> cases q <;> rfl

/-! ## Sinks -/

namespace Sinks

private theorem foldl_log (s : Sinks) (reports : List Report) :
    (reports.foldl log s).collected = s.collected ∧ (reports.foldl log s).metrics = s.metrics := by
  induction reports generalizing s with
  | nil => exact ⟨rfl, rfl⟩
  | cons r reports ih => exact ih (s.log r)

/-- The collector gets the diagnostics up to the first search that breaks down, if any does, and the
metrics count as many. -/
theorem tell_eq (suggest : Suggest) (s : Sinks) (reports : List Report) :
    (s.tell suggest reports).1.collected =
        s.collected ++ answered suggest (Report.complaints reports) ∧
      number (s.tell suggest reports).1.metrics =
        number s.metrics + counts [] (answered suggest (Report.complaints reports)) ∧
      (s.tell suggest reports).2 =
        (Report.complaints reports).all fun c => (c.diagnostic? suggest).isSome := by
  induction reports generalizing s with
  | nil =>
    refine ⟨(List.append_nil _).symm, funext fun q => ?_, rfl⟩
    cases q <;> rfl
  | cons r reports ih =>
    cases r with
    | unresolved c =>
      have hcs : Report.complaints (.unresolved c :: reports) = c :: Report.complaints reports :=
        rfl
      rw [hcs, List.all_cons]
      cases hd : c.diagnostic? suggest with
      | none =>
        simp only [tell, answered, hd, List.append_nil, Option.isSome_none, Bool.false_and,
          true_and, and_true]
        funext q
        cases q <;> rfl
      | some d =>
        obtain ⟨hcollected, hnumber, hwhole⟩ := ih (s.report d)
        have hcons := counts_append [] [] [d] (answered suggest (Report.complaints reports))
        simp only [tell, answered, hd, Option.isSome_some, Bool.true_and]
        refine ⟨?_, ?_, hwhole⟩
        · rw [hcollected, report, List.append_assoc, List.singleton_append]
        · rw [hnumber, report, number_report, add_assoc, ← hcons]
          rfl
    | tooDeepToFold | tooDeepToLower | folded | lowered | substituted => exact ih (s.log _)

end Sinks

/-! ## Expressions -/

section Expression

variable (settings : Settings) (tree : Tree) (e : Document.Expression)

def complaintsOf (scope : Scope) : List Complaint :=
  Report.complaints (Fold.evaluate { tree, limit := settings.limit } e.id scope).reports

/-- What an expression gives, if no search breaks down. -/
def resultOf (scope : Scope) (factory : Ir.Factory) : Result :=
  let σ := if settings.substitute then .ofScope scope else .none
  { name := e.name, location := tree.location e.id
    value := (Fold.evaluate { tree, limit := settings.limit } e.id scope).value
    node := (Lower.lower { tree, limit := settings.limit } e.id 0 σ factory).node }

/-- What comes of an expression is a matter of the scope, the factory and the collector.  The
metrics are only written to, and count what the result and the diagnostics show. -/
theorem processExpression_spec (s : State) :
    let cs := complaintsOf settings tree e s.scope
    let σ := if settings.substitute then .ofScope s.scope else .none
    let out := processExpression settings tree s e
    out.1 = (if cs.all fun c => (c.diagnostic? settings.suggest).isSome then
        some (resultOf settings tree e s.scope s.factory) else none) ∧
      out.2.scope = (Fold.evaluate { tree, limit := settings.limit } e.id s.scope).scope ∧
      out.2.factory = (Lower.lower { tree, limit := settings.limit } e.id 0 σ s.factory).factory ∧
      out.2.collected = s.collected ++ answered settings.suggest cs ∧
      ∀ result, out.1 = some result → number out.2.metrics =
        number s.metrics + counts [result] (answered settings.suggest cs) := by
  intro cs σ out
  have hout : out = processExpression settings tree s e := rfl
  obtain ⟨hlogged, hunseen⟩ := s.toSinks.foldl_log
    (Lower.lower { tree, limit := settings.limit } e.id 0 σ s.factory).reports
  revert hout
  simp only [processExpression]
  generalize List.foldl Sinks.log s.toSinks _ = sinks at hlogged hunseen ⊢
  obtain ⟨collected, metrics, records⟩ := sinks
  obtain rfl : collected = s.collected := hlogged
  obtain rfl : metrics = s.metrics := hunseen
  obtain ⟨hcollected, hnumber, hwhole⟩ := Sinks.tell_eq settings.suggest
    ⟨s.collected, s.metrics.observeLowering
      (Lower.lower { tree, limit := settings.limit } e.id 0 σ s.factory).node, records⟩
    (Fold.evaluate { tree, limit := settings.limit } e.id s.scope).reports
  change _ = cs.all _ at hwhole
  rw [hwhole]
  intro hout
  by_cases hall : (cs.all fun c => (c.diagnostic? settings.suggest).isSome) = true
  · rw [if_pos hall] at hout ⊢
    rw [hout]
    refine ⟨rfl, rfl, rfl, hcollected, ?_⟩
    rintro result ⟨⟩
    exact number_observe s.metrics _ (resultOf settings tree e s.scope s.factory) _ hnumber
  · rw [if_neg hall] at hout ⊢
    rw [hout]
    exact ⟨rfl, rfl, rfl, hcollected, nofun⟩

end Expression

end Batch

/-! ## Samples -/

namespace Metrics

/-- The sum of the samples that carry some labels. -/
def sumWith (labels : List (String × String)) (samples : List Sample) : Nat :=
  total ((samples.filter fun s => labels.all (s.labels.contains ·)).map (·.number))

/-- The sum of the samples of a family that carry some labels. -/
def sampled (m : Metrics) (name : String) (labels : List (String × String)) : Nat :=
  sumWith labels ((m.families.filter (·.name == name)).flatMap (·.samples))

@[simp] private theorem sumWith_append (labels : List (String × String))
    (samples more : List Sample) :
    sumWith labels (samples ++ more) = sumWith labels samples + sumWith labels more := by
  simp only [sumWith, total_eq_sum, List.filter_append, List.map_append, List.sum_append]

end Metrics

end HdlExpr
