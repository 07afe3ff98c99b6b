import Mathlib.Algebra.Group.Prod
import Mathlib.Algebra.Order.Group.Multiset
import HdlExpr.Proofs.Batch.Turns

/-!
# Workers of a batch

However workers take turns, each adds in the end what its path gives alone.  The counters, the
documents that were loaded and the failures are the sums of that, and the summary puts them in the
order of the paths.
-/

namespace HdlExpr.Batch

open Document.Cache (Reader Tracks)

variable {settings : Settings} {contents : Set String} {owners owners' : List String}

/-! ## Shares -/

/-- What workers add to: the counters, the documents that were loaded, and the failures. -/
abbrev Share := (Counter → Nat) × Multiset (Nat × File) × Multiset (String × Failure)

def Run.share (r : Run) : Share := (number r.metrics, r.files, r.failures)

def countsOf : Outcome → Counter → Nat
  | .ok file => counts file.results file.diagnostics
  | .error _ => 0

def countDocument (o : Outcome) (q : Counter) : Nat :=
  if q = (if o.isOk then .loaded else .failed) then 1 else 0

def handover (path : String) (place : Nat) :
    Outcome → Multiset (Nat × File) × Multiset (String × Failure)
  | .ok file => ({(place, file)}, 0)
  | .error failure => (0, {(path, failure)})

/-- What a worker has added so far. -/
def Worker.share (w : Worker) : Share :=
  match w.stage with
  | .waiting | .reading _ | .loaded _ _ | .withdrawn => 0
  | .processing work => (counts work.results work.collected, 0)
  | .counting o => (countsOf o, 0)
  | .reporting o => (countsOf o + countDocument o, 0)
  | .finished o => (countsOf o + countDocument o, handover w.path w.place o)

/-- Something was added to what is shared and to the share of a worker. -/
def Adds (w : Worker) (r : Run) (after : Worker × Run) : Prop :=
  ∃ δ : Share, after.2.share = r.share + δ ∧ after.1.share = w.share + δ

private theorem adds_nothing {w : Worker} {r : Run} {after : Worker × Run}
    (hr : after.2.share = r.share) (hw : after.1.share = w.share) : Adds w r after :=
  ⟨0, by rw [hr, add_zero], by rw [hw, add_zero]⟩

private theorem advance_adds {w : Worker} {r : Run} (hr : r.Settled settings owners)
    (hw : w.Sound settings owners r) (hcanceled : r.canceled = false)
    (halive : (w.advance settings r).2.crashed = false) : Adds w r (w.advance settings r) := by
  obtain ⟨place, path, stage⟩ := w
  cases stage with
  | waiting =>
    simp only [Worker.advance]
    split
    · exact adds_nothing rfl rfl
    · split <;> exact adds_nothing rfl rfl
  | reading reader =>
    have hhome (r : Run) (entry : Nat) (d : Document) : (r.home entry d).2.share = r.share := by
      unfold Run.home
      split <;> rfl
    simp only [Worker.advance]
    split
    · exact adds_nothing (hhome _ _ _) rfl
    · exact adds_nothing rfl rfl
    · exact adds_nothing rfl rfl
  | loaded d home =>
    refine adds_nothing rfl (Prod.ext (funext fun q => ?_) rfl)
    cases q <;> rfl
  | processing work =>
    revert halive
    simp only [Worker.advance]
    split
    · exact fun _ => adds_nothing rfl rfl
    case h_2 e left hleft =>
      rw [hcanceled]
      intro halive
      obtain ⟨hcrash, -⟩ | ⟨next, after, result, ds, hnext, -, -, hresults, hds, hnumber, -⟩ :=
        @next_cases settings work e left hleft r hr.layered hw.own path
      · exact absurd (hcrash.symm.trans halive) Bool.noConfusion
      · have hcounts : counts next.results next.collected =
            counts work.results work.collected + counts [result] ds := by
          rw [hresults, hds, counts_append]
        simp only [hnext, Bool.false_eq_true, if_false, Option.getD_some]
        refine ⟨(counts [result] ds, 0), ?_, ?_⟩
        · exact Prod.ext hnumber (add_zero r.share.2).symm
        · exact Prod.ext hcounts (add_zero (Prod.snd (0 : Share))).symm
  | counting o =>
    refine ⟨(countDocument o, 0), Prod.ext ?_ (add_zero r.share.2).symm, Prod.ext rfl ?_⟩
    · funext q
      exact number_observeDocument r.metrics o.isOk q
    · exact (add_zero (Prod.snd (0 : Share))).symm
  | reporting o =>
    cases o with
    | ok file =>
      refine ⟨(0, {(place, file)}, 0), ?_, ?_⟩
      · simp [Worker.advance, Run.share, ← Multiset.coe_add]
      · simp [Worker.advance, Worker.share, handover]
    | error failure =>
      refine ⟨(0, 0, {(path, failure)}), ?_, ?_⟩
      · simp [Worker.advance, Run.share, ← Multiset.coe_add]
      · simp [Worker.advance, Worker.share, handover]
  | finished o => exact adds_nothing rfl rfl
  | withdrawn => exact adds_nothing rfl rfl

/-! ## Progress -/

private theorem advance_path (w : Worker) (r : Run) :
    (w.advance settings r).1.path = w.path ∧ (w.advance settings r).1.place = w.place := by
  obtain ⟨place, path, stage⟩ := w
  cases stage with
  | waiting =>
    simp only [Worker.advance]
    split
    · exact ⟨rfl, rfl⟩
    · split <;> exact ⟨rfl, rfl⟩
  | reading =>
    simp only [Worker.advance]
    split <;> exact ⟨rfl, rfl⟩
  | processing =>
    simp only [Worker.advance]
    split
    · exact ⟨rfl, rfl⟩
    · split <;> exact ⟨rfl, rfl⟩
  | reporting o => cases o <;> exact ⟨rfl, rfl⟩
  | loaded | counting | finished | withdrawn => exact ⟨rfl, rfl⟩

/-- The number of expressions in the document at a path. -/
def expressionCount (settings : Settings) (path : String) : Nat :=
  match settings.read path with
  | .error _ => 0
  | .ok text =>
    match settings.decode text with
    | .error _ => 0
    | .ok d => d.expressions.length

/-- How many turns a path takes at most. -/
def workload (settings : Settings) (path : String) : Nat := expressionCount settings path + 8

/-- How many turns are left at most. -/
def Worker.left (settings : Settings) (w : Worker) : Nat :=
  match w.stage with
  | .waiting => workload settings w.path
  | .reading r => expressionCount settings w.path + 5 + r.phase.left
  | .loaded d _ => d.expressions.length + 4
  | .processing work => work.left.length + 3
  | .counting _ => 2
  | .reporting _ => 1
  | .finished _ | .withdrawn => 0

/-- What an update adds to an element of a list it adds to the sum over the list. -/
private theorem sum_map_set {α M : Type} [AddCommMonoid M] (f : α → M) {l : List α} {i : Nat}
    {a a' : α} {δ : M} (hi : l[i]? = some a) (h : f a' = f a + δ) :
    ((l.set i a').map f).sum = (l.map f).sum + δ := by
  induction l generalizing i with
  | nil => simp at hi
  | cons b l ih =>
    cases i with
    | zero =>
      obtain rfl : b = a := by simpa using hi
      simp only [List.set_cons_zero, List.map_cons, List.sum_cons, h]
      exact add_right_comm ..
    | succ i =>
      have hrest := ih (i := i) (by simpa using hi)
      simp only [List.set_cons_succ, List.map_cons, List.sum_cons, hrest]
      exact (add_assoc ..).symm

private theorem getElem?_set_cases {α : Type} {l : List α} {i j : Nat} {a b : α}
    (h : (l.set i a)[j]? = some b) : (i = j ∧ b = a) ∨ (i ≠ j ∧ l[j]? = some b) := by
  by_cases hij : i = j
  · subst hij
    have hlt : i < l.length := by simpa using (List.getElem?_eq_some_iff.mp h).1
    rw [List.getElem?_set_self hlt] at h
    exact .inl ⟨rfl, (Option.some.inj h).symm⟩
  · exact .inr ⟨hij, by rwa [List.getElem?_set_ne hij] at h⟩

namespace Crew

/-- What holds between turns, as long as nothing breaks down: workers have scopes of their own, each
is on its way, and what is shared is the sum of the shares. -/
structure Valid (settings : Settings) (contents : Set String) (paths : List String)
    (owners : List String) (s : Crew) : Prop where
  tracks : Tracks settings.toCodec contents owners s.run.cache
  settled : s.run.Settled settings owners
  sound {w : Worker} (h : w ∈ s.workers) : w.Sound settings owners s.run
  apart {i j : Nat} {w w' : Worker} (hi : s.workers[i]? = some w) (hj : s.workers[j]? = some w')
    (h : i ≠ j) : s.run.scopes.Separate w.scope w'.scope
  paths : s.workers.map (fun w => (w.path, w.place)) = paths.zipIdx
  share : s.run.share = (s.workers.map Worker.share).sum
  flags : s.run.crashed = false ∧ s.run.canceled = false ∧ s.run.withdrawn = false

/-- Everything broke down, as some path does alone. -/
def Broken (settings : Settings) (paths : List String) (s : Crew) : Prop :=
  s.run.crashed = true ∧ ∃ path ∈ paths, outcome settings path = none

variable {s : Crew} {paths : List String}

theorem turn_crashed (h : s.run.crashed = true) (i : Nat) : s.turn settings i = s :=
  if_pos h

private theorem turns_crashed (h : s.run.crashed = true) (turns : List Nat) :
    turns.foldl (Crew.turn settings) s = s := by
  induction turns with
  | nil => rfl
  | cons i turns ih => rw [List.foldl_cons, turn_crashed h, ih]

theorem turn_none {i : Nat} (hi : s.workers[i]? = none) : s.turn settings i = s := by
  unfold turn
  split
  · rfl
  · simp only [hi]

theorem turn_some (halive : s.run.crashed = false) {i : Nat} {w : Worker}
    (hi : s.workers[i]? = some w) :
    s.turn settings i =
      { run := (w.advance settings s.run).2
        workers := s.workers.set i (w.advance settings s.run).1 } := by
  simp [turn, halive, hi]

theorem Valid.path_at (h : s.Valid settings contents paths owners) {i : Nat} {w : Worker}
    (hi : s.workers[i]? = some w) : paths[i]? = some w.path := by
  have hzip : paths.zipIdx[i]? = some (w.path, w.place) := by
    rw [← h.paths, List.getElem?_map, hi]
    rfl
  rw [List.getElem?_zipIdx, Option.map_eq_some_iff] at hzip
  obtain ⟨path, hpath, heq⟩ := hzip
  rw [hpath, (Prod.mk.inj heq).1]

theorem Valid.mem_paths (h : s.Valid settings contents paths owners) {w : Worker}
    (hw : w ∈ s.workers) : w.path ∈ paths := by
  obtain ⟨i, hi⟩ := List.mem_iff_getElem?.mp hw
  exact List.mem_of_getElem? (h.path_at hi)

section Turns

variable (hkey : Set.InjOn settings.key contents)
  (hread : ∀ path ∈ paths, ∀ text, settings.read path = .ok text → text ∈ contents)

include hkey hread

theorem Valid.turn (h : s.Valid settings contents paths owners) (i : Nat) :
    (s.turn settings i).Broken settings paths ∨
      ∃ owners', (s.turn settings i).Valid settings contents paths owners' := by
  obtain ⟨halive, hcanceled, hwithdrawn⟩ := h.flags
  cases hi : s.workers[i]? with
  | none => exact .inr ⟨owners, by rwa [turn_none hi]⟩
  | some w =>
    have hmem : w ∈ s.workers := List.mem_of_getElem? hi
    have hw := h.sound hmem
    rw [turn_some halive hi]
    obtain ⟨hcrash, hnone⟩ | ⟨owners', hp, hturned⟩ := advance_turned hkey
      (hread w.path (h.mem_paths hmem)) halive hcanceled h.tracks h.settled hw
    · exact .inl ⟨hcrash, w.path, h.mem_paths hmem, hnone⟩
    obtain ⟨halive', hcanceled', hwithdrawn'⟩ := hturned.flags
    have hother {j : Nat} {w' : Worker} (hj : s.workers[j]? = some w') (hne : i ≠ j) :
        w'.Sound settings owners' (w.advance settings s.run).2 :=
      hturned.other hw h.settled hp (h.sound (List.mem_of_getElem? hj)) (h.apart hi hj hne)
    -- Others stay apart from the worker whose turn it is, and from each other.
    have hapart {j : Nat} {w' : Worker} (hj : s.workers[j]? = some w') (hne : i ≠ j) :
        (w.advance settings s.run).2.scopes.Separate (w.advance settings s.run).1.scope w'.scope :=
      hturned.moves.own_apart (h.sound (List.mem_of_getElem? hj)).own (h.apart hi hj hne)
    refine .inr ⟨owners', hturned.tracks, hturned.settled, ?_, ?_, ?_, ?_,
      halive'.trans halive, hcanceled'.trans hcanceled, hwithdrawn'.trans hwithdrawn⟩
    · intro w' hw'
      obtain ⟨j, hj⟩ := List.mem_iff_getElem?.mp hw'
      obtain ⟨-, rfl⟩ | ⟨hne, hj⟩ := getElem?_set_cases hj
      · exact hturned.sound
      · exact hother hj hne
    · intro j k w₁ w₂ hj hk hjk
      obtain ⟨rfl, rfl⟩ | ⟨hij, hj⟩ := getElem?_set_cases hj
      · obtain ⟨rfl, -⟩ | ⟨hik, hk⟩ := getElem?_set_cases hk
        · exact absurd rfl hjk
        · exact hapart hk hik
      · obtain ⟨rfl, rfl⟩ | ⟨hik, hk⟩ := getElem?_set_cases hk
        · exact (hapart hj hij).symm
        · exact hturned.moves.apart (h.sound (List.mem_of_getElem? hj)).own
            (h.sound (List.mem_of_getElem? hk)).own (h.apart hj hk hjk)
    · obtain ⟨hpath, hplace⟩ := @advance_path settings w s.run
      rw [map_set_eq _ hi (Prod.ext hpath hplace), h.paths]
    · obtain ⟨δ, hrun, hworker⟩ := advance_adds h.settled hw hcanceled (halive'.trans halive)
      rw [sum_map_set Worker.share hi hworker, ← h.share]
      exact hrun

theorem Valid.turns (h : s.Valid settings contents paths owners) (turns : List Nat) :
    (turns.foldl (Crew.turn settings) s).Broken settings paths ∨
      ∃ owners', (turns.foldl (Crew.turn settings) s).Valid settings contents paths owners' := by
  induction turns generalizing s owners with
  | nil => exact .inr ⟨owners, h⟩
  | cons i turns ih =>
    obtain hbroken | ⟨owners₁, h₁⟩ := h.turn hkey hread i
    · rw [List.foldl_cons, turns_crashed hbroken.1]
      exact .inl hbroken
    · exact ih h₁

end Turns

/-! ### One worker after the other -/

/-- All turns of a worker in a row are turns, and take it to its end, unless everything breaks
down. -/
private theorem complete_turns {workers : List Worker} {w : Worker} {r : Run} {i : Nat}
    (hi : workers[i]? = some w) (halive : r.crashed = false) :
    ((w.complete settings r).2.crashed = true ∨ (w.complete settings r).1.stage.rank.1 = 0) ∧
    ∃ n, (List.replicate n i).foldl (Crew.turn settings) { run := r, workers } =
      { run := (w.complete settings r).2, workers := workers.set i (w.complete settings r).1 } := by
  obtain ⟨hlt, hget⟩ := List.getElem?_eq_some_iff.mp hi
  fun_induction Worker.complete settings w r generalizing workers with
  | case1 w r hrank => exact ⟨.inr hrank, 0, by rw [← hget, List.set_getElem_self]; rfl⟩
  | case2 w r hrank hnext ih =>
    have hself := List.getElem?_set_self (a := (w.advance settings r).1) hlt
    obtain ⟨hend, n, hn⟩ := ih hself hnext (by simpa using hlt) (by simp)
    refine ⟨hend, n + 1, ?_⟩
    rw [List.replicate_succ, List.foldl_cons, turn_some halive hi, hn, List.set_set]
  | case3 w r hrank hnext =>
    exact ⟨.inl (by simpa using hnext), 1, turn_some halive hi⟩

/-- A worker has come to its end, or everything broke down. -/
def Over (s : Crew) (i : Nat) : Prop :=
  s.run.crashed = true ∨ ∀ w, s.workers[i]? = some w → w.stage.rank.1 = 0

private theorem finish_cases (s : Crew) (i : Nat) :
    s.finish settings i = s ∧ s.Over i ∨
    ∃ w, s.run.crashed = false ∧ s.workers[i]? = some w ∧ s.finish settings i =
      { run := (w.complete settings s.run).2
        workers := s.workers.set i (w.complete settings s.run).1 } := by
  cases hcrashed : s.run.crashed with
  | true => exact .inl ⟨if_pos hcrashed, .inl hcrashed⟩
  | false =>
    cases hi : s.workers[i]? with
    | none => exact .inl ⟨by simp [finish, hcrashed, hi], .inr (by simp [hi])⟩
    | some w => exact .inr ⟨w, rfl, rfl, by simp [finish, hcrashed, hi]⟩

private theorem finish_turns (s : Crew) (i : Nat) :
    ∃ n, s.finish settings i = (List.replicate n i).foldl (Crew.turn settings) s := by
  obtain ⟨hsame, -⟩ | ⟨w, halive, hi, hfinish⟩ := @finish_cases settings s i
  · exact ⟨0, hsame⟩
  · obtain ⟨-, n, hn⟩ := @complete_turns settings s.workers w s.run i hi halive
    exact ⟨n, hfinish.trans hn.symm⟩

private theorem over_finish (s : Crew) (i : Nat) : (s.finish settings i).Over i := by
  obtain ⟨hsame, hover⟩ | ⟨w, halive, hi, hfinish⟩ := @finish_cases settings s i
  · rwa [hsame]
  · obtain ⟨hend, -⟩ := @complete_turns settings s.workers w s.run i hi halive
    rw [hfinish]
    refine hend.imp_right fun hrank w' hw' => ?_
    obtain ⟨-, rfl⟩ | ⟨hne, -⟩ := getElem?_set_cases hw'
    · exact hrank
    · exact absurd rfl hne

private theorem Over.finish (h : s.Over j) (i : Nat) : (s.finish settings i).Over j := by
  by_cases hij : i = j
  · exact hij ▸ @over_finish settings s i
  obtain ⟨hsame, -⟩ | ⟨w, halive, -, hfinish⟩ := @finish_cases settings s i
  · rwa [hsame]
  · obtain hcrashed | hrank := h
    · exact absurd (halive.symm.trans hcrashed) Bool.noConfusion
    · rw [hfinish]
      refine .inr fun w' hw' => ?_
      obtain ⟨he, -⟩ | ⟨-, hw'⟩ := getElem?_set_cases hw'
      · exact absurd he hij
      · exact hrank w' hw'

/-- Workers that go one after the other take turns, and come to their ends. -/
theorem finishes_turns (s : Crew) (order : List Nat) :
    (∃ turns : List Nat,
      order.foldl (Crew.finish settings) s = turns.foldl (Crew.turn settings) s) ∧
    ∀ i, i ∈ order ∨ s.Over i → (order.foldl (Crew.finish settings) s).Over i := by
  induction order generalizing s with
  | nil => exact ⟨⟨[], rfl⟩, fun i h => h.resolve_left List.not_mem_nil⟩
  | cons i order ih =>
    obtain ⟨⟨turns, hturns⟩, hover⟩ := ih (s.finish settings i)
    obtain ⟨n, hn⟩ := @finish_turns settings s i
    refine ⟨⟨List.replicate n i ++ turns, ?_⟩, ?_⟩
    · rw [List.foldl_cons, hturns, List.foldl_append, hn]
    · intro j hj
      rw [List.foldl_cons]
      rw [List.mem_cons, or_assoc] at hj
      obtain rfl | hj | hj := hj
      · exact hover j (.inr (over_finish s j))
      · exact hover j (.inl hj)
      · exact hover j (.inr (hj.finish i))

end Crew

/-! ## What is shared in the end -/

def file? (settings : Settings) (path : String) : Option File :=
  (outcome settings path).bind Except.toOption

/-- A path that fails, with its failure. -/
def failure? (settings : Settings) (path : String) : Option (String × Failure) :=
  match outcome settings path with
  | some (.error failure) => some (path, failure)
  | _ => none

/-- The files of the paths that load, in order. -/
def loadedFiles (settings : Settings) (paths : List String) : List File :=
  paths.filterMap (file? settings)

def failedPaths (settings : Settings) (paths : List String) : List (String × Failure) :=
  paths.filterMap (failure? settings)

/-- A list of pairs is looked up where it is the graph of a partial function. -/
private theorem lookup_eq {β : Type} {l : List (Nat × β)} {k : Nat} {o : Option β}
    (h : ∀ b, (k, b) ∈ l ↔ o = some b) : l.lookup k = o := by
  cases hk : l.lookup k with
  | some b =>
    obtain ⟨before, after, rfl, -⟩ := List.lookup_eq_some_iff.mp hk
    exact ((h b).mp (by simp)).symm
  | none =>
    cases o with
    | none => rfl
    | some b =>
      have hmem := List.lookup_eq_none_iff.mp hk _ ((h b).mpr rfl)
      simp at hmem

/-- What a batch gives, whatever the order of its work: the files of the paths that load, each as
its document gives it alone, and one failure for each other path; and the samples agree with
them. -/
structure Agrees (settings : Settings) (paths : List String) (r : Run) : Prop where
  /-- Every path comes to a file or a failure. -/
  whole {path : String} (h : path ∈ paths) : (outcome settings path).isSome = true
  summary : r.summary paths = summarize (loadedFiles settings paths)
  failures : r.failures.Perm (failedPaths settings paths)
  report : r.report paths =
    (r.summary paths,
      if failedPaths settings paths = [] then none else some (.incomplete r.failures))
  loaded : r.metrics.sampled "svexpr_documents_total" [("outcome", "ok")] =
    (r.summary paths).files.length
  failed : r.metrics.sampled "svexpr_documents_total" [("outcome", "error")] = r.failures.length
  evaluated : r.metrics.sampled "svexpr_expressions_total" [("engine", "eval")] =
    (r.summary paths).expressions
  invalid :
    r.metrics.sampled "svexpr_expressions_total" [("engine", "eval"), ("outcome", "invalid")] =
      (r.summary paths).invalid
  lowered : r.metrics.sampled "svexpr_expressions_total" [("engine", "lower")] =
    (r.summary paths).expressions
  empty :
    r.metrics.sampled "svexpr_expressions_total" [("engine", "lower"), ("outcome", "empty")] =
      (r.summary paths).empty
  diagnostics : r.metrics.sampled "svexpr_diagnostics_total" [] = (r.summary paths).diagnostics
  nodes : r.metrics.sampled "svexpr_ir_nodes_total" [] =
    total ((r.summary paths).files.flatMap fun f => f.results.map (·.nodes))

end HdlExpr.Batch
