import HdlExpr.Proofs.Lower.Trimming
import HdlExpr.Proofs.Run
import HdlExpr.Proofs.Visiting

/-!
# Limits of depth

Both engines cut off what nests too deeply.  A run that cuts nothing off does not depend on its
limit, and one that does warns once and leaves out only what it cut off.  How deep a node may still
nest can be counted on the way, by a counter that every call takes up by one and then gives back as
it was.
-/

namespace HdlExpr

/-- Whether a report warns of an expression that nests too deeply. -/
def Report.isTooDeep : Report → Bool
  | .tooDeepToFold .. | .tooDeepToLower .. => true
  | _ => false

/-- How many of some reports are such warnings. -/
def Report.warnings (reports : List Report) : Nat := reports.countP isTooDeep

/-! ## Runs that may warn -/

/-- What a state knows of the reports so far, and whether a warning is among them. -/
structure Journal (σ : Type) where
  reports : σ → Array Report
  warned : σ → Bool

namespace Journal

open Run

variable {σ α : Type} (j : Journal σ)

def warnings (s : σ) : Nat := Report.warnings (j.reports s).toList

/-- There is one warning if there was cause for any, and none otherwise. -/
def Once (s : σ) : Prop := j.warnings s = if j.warned s then 1 else 0

/-- A run that does not warn. -/
structure Plain (x : StateM σ α) : Prop where
  warned (s : σ) : j.warned (x s).2 = j.warned s
  warnings (s : σ) : j.warnings (x s).2 = j.warnings s

/-- A run that warns, unless there was a warning before. -/
structure Warns (x : StateM σ α) : Prop where
  warned (s : σ) : j.warned (x s).2 = true
  warnings (s : σ) :
    j.warnings (x s).2 = if j.warned s then j.warnings s else j.warnings s + 1

/-- A run that warns once if at all, and one that does the same if there is no warning. -/
structure Truncates (x y : StateM σ α) : Prop where
  stays {s : σ} (h : j.warned s = true) : j.warned (x s).2 = true
  once {s : σ} (h : j.Once s) : j.Once (x s).2
  same {s : σ} (h : j.warned (x s).2 = false) : y s = x s

variable {j}

theorem Plain.of_push {x : StateM σ α} {r : σ → Report} (hr : ∀ s, (r s).isTooDeep = false)
    (hw : ∀ s, j.warned (x s).2 = j.warned s)
    (h : ∀ s, j.reports (x s).2 = (j.reports s).push (r s)) : j.Plain x where
  warned := hw
  warnings s := by simp [Journal.warnings, Report.warnings, h, hr]

theorem Warns.of_push {x : StateM σ α} {r : Report} (hr : r.isTooDeep = true)
    (hw : ∀ s, j.warned (x s).2 = true)
    (h : ∀ s, j.reports (x s).2 = if j.warned s then j.reports s else (j.reports s).push r) :
    j.Warns x where
  warned := hw
  warnings s := by
    rw [Journal.warnings, Journal.warnings, h]
    cases j.warned s <;> simp [Report.warnings, hr]

theorem Plain.truncates {x : StateM σ α} (h : j.Plain x) : j.Truncates x x where
  stays hs := by rw [h.warned, hs]
  once hs := by rw [Once, h.warned, h.warnings]; exact hs
  same _ := rfl

theorem Warns.truncates {x : StateM σ α} (h : j.Warns x) (y : StateM σ α) : j.Truncates x y where
  stays _ := h.warned _
  once {s} hs := by
    rw [Once] at hs
    rw [Once, h.warned, h.warnings, hs]
    cases j.warned s <;> rfl
  same {s} hs := by
    rw [h.warned] at hs
    cases hs

private theorem congruence_truncates (j : Journal σ) :
    Congruence fun α (x y : StateM σ α) => j.Truncates x y where
  pure a := ⟨fun h => h, fun h => h, fun _ => rfl⟩
  bind := by
    intro α β x y f g h hf
    refine ⟨fun hs => (hf _).stays (h.stays hs), fun hs => (hf _).once (h.once hs), ?_⟩
    intro s hs
    -- A warning of the first part would still be there.
    have hx : j.warned (x s).2 = false := by
      by_contra hw
      rw [Bool.not_eq_false] at hw
      rw [bind_apply, (hf _).stays hw] at hs
      cases hs
    rw [bind_apply, bind_apply, h.same hx]
    exact (hf _).same hs

theorem Truncates.warnings_le {x y : StateM σ α} (h : j.Truncates x y) {s : σ} (hs : j.Once s) :
    j.warnings (x s).2 ≤ 1 := by
  rw [h.once hs]
  split <;> omega

theorem Truncates.eq_of_warnings {x y : StateM σ α} (h : j.Truncates x y) {s : σ} (hs : j.Once s)
    (h0 : j.warnings (x s).2 = 0) : y s = x s := by
  refine h.same ?_
  have honce := h.once hs
  rw [Once, h0] at honce
  by_contra hw
  rw [Bool.not_eq_false] at hw
  rw [hw] at honce
  cases honce

end Journal

/-! ## Runs with a counter -/

section Counter

variable {σ α : Type} {depth : Nat}

/-- A computation one level further down. -/
def nested (x : StateT Nat (StateM σ) α) : StateT Nat (StateM σ) α := do
  modify (· + 1)
  let a ← x
  modify (· - 1)
  pure a

/-- A computation that is left out, for another, once the counter has reached a limit. -/
def within (limit : Nat) (x cut : StateT Nat (StateM σ) α) : StateT Nat (StateM σ) α := do
  if limit ≤ (← get) then cut else x

theorem Returns.nested {x : StateT Nat (StateM σ) α} {y : StateM σ α}
    (h : Returns (depth + 1) x y) : Returns depth (nested x) y := by
  intro s
  have hdown : HdlExpr.nested x depth s =
      (((x (depth + 1) s).1.1, (x (depth + 1) s).1.2 - 1), (x (depth + 1) s).2) := rfl
  rw [hdown, h s]
  rfl

private theorem within_apply (limit : Nat) (x cut : StateT Nat (StateM σ) α) :
    within limit x cut depth = if limit ≤ depth then cut depth else x depth := by
  have hget : within limit x cut depth = (if limit ≤ depth then cut else x) depth := rfl
  rw [hget]
  split <;> rfl

/-- The budget of a computation is what the counter leaves of the limit. -/
theorem Returns.within {limit : Nat} {x cut : StateT Nat (StateM σ) α} {y : Nat → StateM σ α}
    (hcut : Returns depth cut (y 0))
    (hx : ∀ budget, limit - depth = budget + 1 → Returns depth x (y (budget + 1))) :
    Returns depth (within limit x cut) (y (limit - depth)) := by
  intro s
  rw [within_apply]
  cases hbudget : limit - depth with
  | zero =>
    rw [if_pos (Nat.sub_eq_zero_iff_le.mp hbudget)]
    exact hcut s
  | succ budget =>
    rw [if_neg (by omega)]
    exact hx budget hbudget s

end Counter

/-! ## Folding -/

namespace Fold

def journal : Journal State := ⟨State.reports, State.warned⟩

private theorem report_plain {r : Report} (h : r.isTooDeep = false) : journal.Plain (report r) :=
  .of_push (fun _ => h) (fun _ => rfl) fun _ => rfl

private theorem storeStep_plain (slot : Option Nat) (v : Value) :
    journal.Plain (storeStep slot v) := by
  cases slot with
  | none => exact ⟨fun _ => rfl, fun _ => rfl⟩
  | some slot =>
    simp only [storeStep]
    split
    · exact ⟨fun _ => rfl, fun _ => rfl⟩
    · exact ⟨fun _ => rfl, fun _ => rfl⟩

private theorem unresolved_plain (c : Context) (site : NodeId) (name : String) :
    journal.Plain (unresolved c site name) := by
  cases hm : c.mute with
  | true =>
    simp only [unresolved, hm]
    exact ⟨fun _ => rfl, fun _ => rfl⟩
  | false =>
    simp only [unresolved, hm]
    exact .of_push (fun _ => rfl) (fun _ => rfl) fun _ => rfl

private theorem warn_warns (c : Context) (n : NodeId) : journal.Warns (warn c n) := by
  have hdeep : (Report.tooDeepToFold c.limit (c.tree.location n)).isTooDeep = true := rfl
  refine .of_push hdeep (fun s => ?_) fun s => ?_
  · cases hw : s.warned <;> simp [journal, warn, report, hw]
  · cases hw : s.warned <;> simp [journal, warn, report, hw]

private theorem primitives_truncates :
    Primitives fun α (x y : Run α) => journal.Truncates x y where
  toCongruence := journal.congruence_truncates
  read := read_of_get journal.congruence_truncates
    (Journal.Plain.truncates ⟨fun _ => rfl, fun _ => rfl⟩)
  store slot v := (storeStep_plain slot v).truncates

theorem fold_truncates (t : Tree) (mute : Bool) (limit limit' : Nat) {budget budget' : Nat}
    (hle : budget ≤ budget') (n : NodeId) :
    journal.Truncates (fold ⟨t, mute, limit⟩ budget n) (fold ⟨t, mute, limit'⟩ budget' n) := by
  induction budget generalizing budget' n with
  | zero =>
    have hwarns : journal.Warns (fold ⟨t, mute, limit⟩ 0 n) :=
      ⟨(warn_warns _ n).warned, (warn_warns _ n).warnings⟩
    exact hwarns.truncates _
  | succ budget ih =>
    cases budget' with
    | zero => exact absurd hle (Nat.not_succ_le_zero budget)
    | succ budget' =>
      have hcongr := primitives_truncates.toCongruence
      have hvisit := visit_related primitives_truncates (Form.decode t n)
        (fun name => (unresolved_plain ⟨t, mute, limit⟩ _ name).truncates)
        fun m _ => ih (Nat.le_of_succ_le_succ hle) m
      refine hcongr.bind hvisit fun x => ?_
      exact hcongr.bind (report_plain rfl).truncates fun _ => hcongr.pure x

private theorem evaluate_warnings (t : Tree) (mute : Bool) {d d' : Nat} (hle : d ≤ d') (n : NodeId)
    (scope : Scope) :
    Report.warnings (evaluate ⟨t, mute, d⟩ n scope).reports ≤ 1 ∧
      (Report.warnings (evaluate ⟨t, mute, d⟩ n scope).reports = 0 →
        evaluate ⟨t, mute, d'⟩ n scope = evaluate ⟨t, mute, d⟩ n scope) := by
  have h := fold_truncates t mute d d' hle n
  have hstart : journal.Once { scope } := rfl
  refine ⟨h.warnings_le hstart, fun h0 => ?_⟩
  have hsame := h.eq_of_warnings hstart h0
  simp only [evaluate, StateT.run, hsame]

/-- Folds a node with the nesting counted on the way; the nesting of calls is bounded as well. -/
def foldCounting (c : Context) : Nat → NodeId → StateT Nat Run Operand
  | 0, _ => pure .absent
  | fuel + 1, n =>
    let x := nested do
      let form := Form.decode c.tree n
      let x ← visit c (foldCounting c fuel) form
      report (.folded form.shape (c.tree.location form.site) x.value)
      pure x
    let cut := do
      warn c n
      pure .absent
    within c.limit x cut

private theorem primitives_returns (depth : Nat) :
    Primitives fun α (x : StateT Nat Run α) (y : Run α) => Returns depth x y where
  toCongruence := congruence_returns State depth
  read := read_of_get (congruence_returns State depth) (returns_lift _)
  store _ _ := returns_lift _

private theorem foldCounting_returns (c : Context) {fuel depth : Nat}
    (hfuel : c.limit - depth < fuel)
    (n : NodeId) : Returns depth (foldCounting c fuel n) (fold c (c.limit - depth) n) := by
  induction fuel generalizing depth n with
  | zero => exact absurd hfuel (Nat.not_lt_zero _)
  | succ fuel ih =>
    have hcut := congruence_returns State depth
    refine Returns.within (y := fun budget => fold c budget n)
      (hcut.bind (returns_lift _) fun _ => hcut.pure _) fun budget hbudget => .nested ?_
    have hinner : c.limit - (depth + 1) = budget := by omega
    have hvisit := visit_related (primitives_returns (depth + 1)) (Form.decode c.tree n)
      (fun name => returns_lift (unresolved c _ name)) fun m _ => ih (by omega) m
    rw [hinner] at hvisit
    have hcongr := congruence_returns State (depth + 1)
    exact hcongr.bind hvisit fun x => hcongr.bind (returns_lift _) fun _ => hcongr.pure x

end Fold

/-! ## Lowering -/

namespace Lower

open Ir (Node Kind Factory)

def journal : Journal State := ⟨State.reports, State.warned⟩

private theorem report_plain {r : Report} (h : r.isTooDeep = false) : journal.Plain (report r) :=
  .of_push (fun _ => h) (fun _ => rfl) fun _ => rfl

private theorem issue_plain (k : Kind) : journal.Plain (issue k) := ⟨fun _ => rfl, fun _ => rfl⟩

private theorem warn_warns (c : Context) (n : NodeId) : journal.Warns (warn c n) := by
  have hdeep : (Report.tooDeepToLower c.limit (c.tree.location n)).isTooDeep = true := rfl
  refine .of_push hdeep (fun s => ?_) fun s => ?_
  · cases hw : s.warned <;> simp [journal, warn, report, hw]
  · cases hw : s.warned <;> simp [journal, warn, report, hw]

private theorem primitives_truncates :
    Primitives fun α (x y : Run α) => journal.Truncates x y where
  toCongruence := journal.congruence_truncates
  issue k := (issue_plain k).truncates
  literal tag text parent := by
    have hcongr := journal.congruence_truncates
    unfold visitLiteral
    split
    · exact hcongr.pure _
    · exact hcongr.bind (issue_plain _).truncates fun _ => hcongr.pure _
  plainName name parent σ := by
    have hcongr := journal.congruence_truncates
    unfold visitPlainName
    split
    · refine hcongr.bind (report_plain rfl).truncates fun _ => ?_
      exact hcongr.bind (issue_plain _).truncates fun _ => hcongr.pure _
    · exact hcongr.bind (issue_plain _).truncates fun _ => hcongr.pure _

private theorem lowerNode_truncates (t : Tree) (limit limit' : Nat) {budget budget' : Nat}
    (hle : budget ≤ budget') (n : NodeId) (parent : Nat) (σ : Substitution) :
    journal.Truncates (lowerNode ⟨t, limit⟩ budget n parent σ)
      (lowerNode ⟨t, limit'⟩ budget' n parent σ) := by
  induction budget generalizing budget' n parent σ with
  | zero =>
    have hwarns : journal.Warns (lowerNode ⟨t, limit⟩ 0 n parent σ) :=
      ⟨(warn_warns _ n).warned, (warn_warns _ n).warnings⟩
    exact hwarns.truncates _
  | succ budget ih =>
    cases budget' with
    | zero => exact absurd hle (Nat.not_succ_le_zero budget)
    | succ budget' =>
      have hcongr := journal.congruence_truncates
      have hvisit := visit_related primitives_truncates (Form.decode t n) parent σ
        fun m _ parent σ => ih (Nat.le_of_succ_le_succ hle) m parent σ
      refine hcongr.bind hvisit fun node => ?_
      exact hcongr.bind (report_plain rfl).truncates fun _ => hcongr.pure node

private theorem lower_warnings (t : Tree) {d d' : Nat} (hle : d ≤ d') (n : NodeId) (parent : Nat)
    (σ : Substitution) (factory : Factory) :
    Report.warnings (lower ⟨t, d⟩ n parent σ factory).reports ≤ 1 ∧
      (Report.warnings (lower ⟨t, d⟩ n parent σ factory).reports = 0 →
        lower ⟨t, d'⟩ n parent σ factory = lower ⟨t, d⟩ n parent σ factory) := by
  have h := lowerNode_truncates t d d' hle n parent σ
  have hstart : journal.Once { factory } := rfl
  refine ⟨h.warnings_le hstart, fun h0 => ?_⟩
  have hsame := h.eq_of_warnings hstart h0
  simp only [lower, StateT.run, hsame]

/-- Lowers a node with the nesting counted on the way; the nesting of calls is bounded as well. -/
def lowerCounting (c : Context) :
    Nat → NodeId → Nat → Substitution → StateT Nat Run (Option Node)
  | 0, _, _, _ => pure none
  | fuel + 1, n, parent, σ =>
    let form := Form.decode c.tree n
    let x := do
      let node ← nested (visit (lowerCounting c fuel) form parent σ)
      report (.lowered form.shape (c.tree.location form.site) (node.map (·.kind)))
      pure node
    let cut := do
      warn c n
      pure none
    within c.limit x cut

private theorem primitives_returns (depth : Nat) :
    Primitives fun α (x : StateT Nat Run α) (y : Run α) => Returns depth x y where
  toCongruence := congruence_returns State depth
  issue _ := returns_lift _
  literal _ _ _ := returns_lift _
  plainName _ _ _ := returns_lift _

private theorem lowerCounting_returns (c : Context) {fuel depth : Nat}
    (hfuel : c.limit - depth < fuel) (n : NodeId) (parent : Nat) (σ : Substitution) :
    Returns depth (lowerCounting c fuel n parent σ)
      (lowerNode c (c.limit - depth) n parent σ) := by
  induction fuel generalizing depth n parent σ with
  | zero => exact absurd hfuel (Nat.not_lt_zero _)
  | succ fuel ih =>
    have hcongr := congruence_returns State depth
    refine Returns.within (y := fun budget => lowerNode c budget n parent σ)
      (hcongr.bind (returns_lift _) fun _ => hcongr.pure _) fun budget hbudget => ?_
    have hinner : c.limit - (depth + 1) = budget := by omega
    have hvisit := visit_related (primitives_returns (depth + 1)) (Form.decode c.tree n) parent σ
      fun m _ parent σ => ih (by omega) m parent σ
    rw [hinner] at hvisit
    refine hcongr.bind (Returns.nested hvisit) fun node => ?_
    exact hcongr.bind (returns_lift _) fun _ => hcongr.pure node

end Lower

/-- A limit only cuts off.  Each call warns at most once, and one that does not warn gives what it
gives under every higher limit.  A document is at most trimmed by its limit, and counting the
nesting makes no difference and gives the counter back. -/
theorem depth_limit_truncates (t : Tree) (n : NodeId) {d d' : Nat} (hle : d ≤ d') :
    (∀ mute scope,
      let out := Fold.evaluate ⟨t, mute, d⟩ n scope
      Report.warnings out.reports ≤ 1 ∧
        (Report.warnings out.reports = 0 → Fold.evaluate ⟨t, mute, d'⟩ n scope = out)) ∧
    (∀ parent σ factory,
      let out := Lower.lower ⟨t, d⟩ n parent σ factory
      let out' := Lower.lower ⟨t, d'⟩ n parent σ factory
      Report.warnings out.reports ≤ 1 ∧ (Report.warnings out.reports = 0 → out' = out) ∧
        (Ir.Node.encode? out.node = .empty ∨
          (Ir.Node.encode? out.node).Trim (Ir.Node.encode? out'.node))) ∧
    ∀ fuel depth, d - depth < fuel →
      (∀ mute, Returns depth (Fold.foldCounting ⟨t, mute, d⟩ fuel n)
        (Fold.fold ⟨t, mute, d⟩ (d - depth) n)) ∧
      ∀ parent σ, Returns depth (Lower.lowerCounting ⟨t, d⟩ fuel n parent σ)
        (Lower.lowerNode ⟨t, d⟩ (d - depth) n parent σ) := by
  refine ⟨fun mute scope => Fold.evaluate_warnings t mute hle n scope,
    fun parent σ factory => ?_, fun fuel depth hfuel => ?_⟩
  · obtain ⟨hone, hsame⟩ := Lower.lower_warnings t hle n parent σ factory
    have htrim := Lower.lowerNode_trimmed t d d' hle n parent parent σ { factory } { factory }
    exact ⟨hone, hsame, htrim.encode?⟩
  · exact ⟨fun mute => Fold.foldCounting_returns ⟨t, mute, d⟩ hfuel n,
      fun parent σ => Lower.lowerCounting_returns ⟨t, d⟩ hfuel n parent σ⟩

/-- In `w[v[3:0]:1] + x` the bounds of `v` are too deep for a limit of three, which leaves them
blank and the whole without a value, and four is enough. -/
theorem depth_limit_truncates_nestedParts :
    let t := Lower.nestedPartsContext.tree
    let scope := (Scope.empty.enter.set "w" (.sized 255 8)).set "v" (.sized 21 8)
    let scope := scope.set "x" (.signed 1)
    let value (d : Nat) := Fold.evaluate ⟨t, false, d⟩ 31 scope
    let out (d : Nat) := Lower.lower ⟨t, d⟩ 31 1 .none ⟨[.call]⟩
    let doc (d : Nat) := Ir.Node.encode? (out d).node
    let bounds (d : Nat) :=
      (doc d).operands.map fun w => w.operands.map fun v => v.operands.map (·.kind)
    (Report.warnings (value 3).reports = 1 ∧ (value 3).value.isValid = false) ∧
      (Report.warnings (value 4).reports = 0 ∧ (value 4).value.isValid = true ∧
        value 1000 = value 4) ∧
      (Report.warnings (out 3).reports = 1 ∧ bounds 3 = [[["", ""], []], []] ∧
        (doc 3).Trim (doc 4)) ∧
      (Report.warnings (out 4).reports = 0 ∧ bounds 4 = [[["Constant", "Constant"], []], []] ∧
        out 1000 = out 4) ∧
      Returns 1 (Lower.lowerCounting ⟨t, 3⟩ 4 31 1 .none)
        (Lower.lowerNode ⟨t, 3⟩ 2 31 1 .none) := by
  intro t _ scope value out doc bounds
  have hvalue : Report.warnings (value 4).reports = 0 := by decide +kernel
  have hout : Report.warnings (out 4).reports = 0 := by decide +kernel
  have hkind : (doc 3).kind = "Operation" := by decide +kernel
  obtain ⟨_, hlower, hcount⟩ := depth_limit_truncates t 31 (show 3 ≤ 4 by decide)
  obtain ⟨hfold', hlower', _⟩ := depth_limit_truncates t 31 (show 4 ≤ 1000 by decide)
  have htrim : (doc 3).Trim (doc 4) := by
    refine (hlower 1 .none ⟨[.call]⟩).2.2.resolve_left fun hempty => ?_
    exact absurd (hkind.symm.trans (congrArg Ir.Doc.kind hempty)) (by decide)
  exact ⟨⟨by decide +kernel, by decide +kernel⟩,
    ⟨hvalue, by decide +kernel, (hfold' false scope).2 hvalue⟩,
    ⟨by decide +kernel, by decide +kernel, htrim⟩,
    ⟨hout, by decide +kernel, (hlower' 1 .none ⟨[.call]⟩).2.1 hout⟩,
    (hcount 4 1 (by decide)).2 1 .none⟩

end HdlExpr
