import HdlExpr.Proofs.Batch.Tallies
import HdlExpr.Proofs.Document.Readers
import HdlExpr.Proofs.Scope.Separate

/-!
# Turns

Workers take turns, and what they share is in the hands of one after the other.  The cache is
transparent, the scope of a document stays as the document has it, and the cells of a snapshot are
those of one worker.  So each turn brings a worker closer to what its path gives alone, and changes
nothing for the others.
-/

namespace HdlExpr.Batch

open Document.Cache (Reader Tracks)
open ScopeGraph (Moves)

/-! ## A path alone -/

section Alone

variable (settings : Settings)

/-- Processes expressions in order.  There are no results if an evaluation breaks down. -/
def processAll (tree : Tree) (s : State) :
    List Document.Expression → Option (List Result) × State
  | [] => (some [], s)
  | e :: rest =>
    match processExpression settings tree s e with
    | (none, s) => (none, s)
    | (some result, s) =>
      let (results, s) := processAll tree s rest
      (results.map (result :: ·), s)

/-- What the next expression of a document finds that is processed alone. -/
def Work.alone (w : Work) (scope : Scope) : State :=
  { scope, factory := w.factory, collected := w.collected }

/-- The file of a document with a scope, where some expressions are still to be processed. -/
def Work.finish (path : String) (w : Work) (scope : Scope) : Option File :=
  let (results, s) := processAll settings w.document.tree (w.alone scope) w.left
  results.map fun results => { path, results := w.results ++ results, diagnostics := s.collected }

/-- The file of a document that is processed alone, on a fresh copy of its scope. -/
def processAlone (path : String) (d : Document) : Option File :=
  let (results, s) := processAll settings d.tree { scope := d.scope.copy } d.expressions
  results.map fun results => { path, results, diagnostics := s.collected }

/-- What comes of a path alone; nothing, if an evaluation breaks down. -/
def outcome (path : String) : Option Outcome :=
  match settings.read path with
  | .error fault => some (.error (.load { fault, path }))
  | .ok text =>
    match settings.decode text with
    | .error fault => some (.error (.load { fault, path }))
    | .ok d => (processAlone settings path d).map .ok

end Alone

variable {settings : Settings} {contents : Set String} {owners owners' : List String}

/-- States that differ in what is only written to. -/
private structure State.Alike (s s' : State) : Prop where
  scope : s.scope = s'.scope
  factory : s.factory = s'.factory
  collected : s.collected = s'.collected

private theorem processExpression_alike {s s' : State} (h : s.Alike s') (tree : Tree)
    (e : Document.Expression) :
    (processExpression settings tree s e).1 = (processExpression settings tree s' e).1 ∧
      (processExpression settings tree s e).2.Alike (processExpression settings tree s' e).2 := by
  obtain ⟨hresult, hscope, hfactory, hcollected, -⟩ := processExpression_spec settings tree e s
  obtain ⟨hresult', hscope', hfactory', hcollected', -⟩ := processExpression_spec settings tree e s'
  refine ⟨?_, ?_, ?_, ?_⟩
  · rw [hresult, hresult', h.scope, h.factory]
  · rw [hscope, hscope', h.scope]
  · rw [hfactory, hfactory', h.scope, h.factory]
  · rw [hcollected, hcollected', h.collected, h.scope]

private theorem processAll_cons_none {tree : Tree} {s : State} {e : Document.Expression}
    (h : (processExpression settings tree s e).1 = none) (rest : List Document.Expression) :
    processAll settings tree s (e :: rest) = (none, (processExpression settings tree s e).2) := by
  rcases hp : processExpression settings tree s e with ⟨_ | result, after⟩
  · simp only [processAll, hp]
  · simp [hp] at h

private theorem processAll_cons_some {tree : Tree} {s : State} {e : Document.Expression}
    {result : Result} (h : (processExpression settings tree s e).1 = some result)
    (rest : List Document.Expression) :
    processAll settings tree s (e :: rest) =
      ((processAll settings tree (processExpression settings tree s e).2 rest).1.map (result :: ·),
        (processAll settings tree (processExpression settings tree s e).2 rest).2) := by
  rcases hp : processExpression settings tree s e with ⟨_ | result', after⟩
  · simp [hp] at h
  · obtain rfl : result' = result := by simpa [hp] using h
    simp only [processAll, hp]

private theorem processAll_alike {s s' : State} (h : s.Alike s') (tree : Tree)
    (es : List Document.Expression) :
    (processAll settings tree s es).1 = (processAll settings tree s' es).1 ∧
      (processAll settings tree s es).2.collected =
        (processAll settings tree s' es).2.collected := by
  induction es generalizing s s' with
  | nil => exact ⟨rfl, h.collected⟩
  | cons e es ih =>
    obtain ⟨hresult, hafter⟩ := @processExpression_alike settings s s' h tree e
    cases hone : (processExpression settings tree s e).1 with
    | none =>
      rw [processAll_cons_none hone, processAll_cons_none (hresult ▸ hone)]
      exact ⟨rfl, hafter.collected⟩
    | some result =>
      obtain ⟨hresults, hcollected⟩ := ih hafter
      rw [processAll_cons_some hone, processAll_cons_some (hresult ▸ hone)]
      exact ⟨by rw [hresults], hcollected⟩

private theorem finish_done {w : Work} (hleft : w.left = []) (path : String) (scope : Scope) :
    w.finish settings path scope = some (w.file path) := by
  simp [Work.finish, Work.alone, Work.file, hleft, processAll]

/-- The work that begins with a snapshot leads to what the document gives alone. -/
private theorem finish_start (path : String) (d : Document) (s : Option Nat) :
    Work.finish settings path { document := d, scope := s } d.scope.copy =
      processAlone settings path d := by
  simp [Work.finish, Work.alone, processAlone]

/-- What the next expression does: if it breaks down, there will be no file; else the worker stores
in its scope and goes on to the same file. -/
theorem next_cases {w : Work} {e : Document.Expression}
    {left : List Document.Expression} (hleft : w.left = e :: left) {r : Run}
    (hl : r.scopes.Layered) (hs : r.scopes.Has w.scope) (path : String) :
    ((w.next settings e left r).2.crashed = true ∧
      w.finish settings path (r.scopes.view? w.scope) = none) ∨
    ∃ (next : Work) (after : State) (result : Result) (ds : List Diagnostic),
      w.next settings e left r = (some next, { r with
        scopes := r.scopes.update? w.scope after.scope, metrics := after.metrics
        records := after.records, crashed := false }) ∧
      next.scope = w.scope ∧ next.left = left ∧ next.results = w.results ++ [result] ∧
      next.collected = w.collected ++ ds ∧
      number after.metrics = number r.metrics + counts [result] ds ∧
      next.finish settings path ((r.scopes.update? w.scope after.scope).view? w.scope) =
        w.finish settings path (r.scopes.view? w.scope) := by
  have halike : (w.state r).Alike (w.alone (r.scopes.view? w.scope)) := ⟨rfl, rfl, rfl⟩
  obtain ⟨hsame, hafter⟩ := @processExpression_alike settings _ _ halike w.document.tree e
  obtain ⟨-, hscope, -, hcollected, hnumber⟩ :=
    processExpression_spec settings w.document.tree e (w.state r)
  rcases hp : processExpression settings w.document.tree (w.state r) e with ⟨_ | result, after⟩
  · rw [hp] at hsame
    refine .inl ⟨by simp only [Work.next, hp]; rfl, ?_⟩
    simp only [Work.finish, hleft, processAll_cons_none hsame.symm]
    rfl
  · rw [hp] at hsame hafter hscope hcollected hnumber
    have hview : (r.scopes.update? w.scope after.scope).view? w.scope = after.scope := by
      refine ScopeGraph.view?_update?_self hl hs ?_ ?_
      · exact hscope ▸ Fold.fold_levels _ _ _ _
      · exact hscope ▸ Fold.fold_size _ _ _ _
    let next : Work := { w with
      factory := after.factory, results := w.results ++ [result], collected := after.collected
      left }
    refine .inr ⟨next, after, result, _, by simp only [Work.next, hp]; rfl, rfl, rfl, rfl,
      hcollected, hnumber result rfl, ?_⟩
    -- The rest depends on nothing but the scope, the factory and the collector.
    have hrest : (next.alone after.scope).Alike (processExpression settings w.document.tree
        (w.alone (r.scopes.view? w.scope)) e).2 :=
      ⟨hafter.scope, hafter.factory, hafter.collected⟩
    obtain ⟨hresults, hds⟩ := @processAll_alike settings _ _ hrest w.document.tree left
    rw [hview]
    simp only [Work.finish, hleft, processAll_cons_some hsame.symm, hresults, hds, next,
      Option.map_map, Function.comp_def, List.append_assoc, List.singleton_append]

/-! ## One turn -/

def Worker.scope (w : Worker) : Option Nat :=
  match w.stage with
  | .processing work => work.scope
  | _ => none

/-- Every document that was asked for has its own scope, which looks as the document says. -/
structure Run.Settled (settings : Settings) (owners : List String) (r : Run) : Prop where
  layered : r.scopes.Layered
  homes {entry : Nat} {home : Option Nat} (h : (entry, home) ∈ r.homes) :
    r.scopes.Has home ∧ ∃ text d, owners[entry]? = some text ∧ settings.decode text = .ok d ∧
      (r.scopes.view? home).copy = d.scope.copy

/-- How far a worker is on the way to what its path gives alone. -/
def Stage.Sound (settings : Settings) (owners : List String) (r : Run) (path : String) :
    Stage → Prop
  | .waiting => True
  | .reading reader => settings.read path = .ok reader.text ∧ reader.Sound settings.toCodec owners
  | .loaded d home =>
    (∃ text, settings.read path = .ok text ∧ settings.decode text = .ok d) ∧
      ∃ entry, (entry, home) ∈ r.homes ∧ (r.scopes.view? home).copy = d.scope.copy
  | .processing work =>
    (work.finish settings path (r.scopes.view? work.scope)).map .ok = outcome settings path
  | .counting o | .reporting o | .finished o => outcome settings path = some o
  | .withdrawn => False

/-- What holds of a worker between turns. -/
structure Worker.Sound (settings : Settings) (owners : List String) (r : Run) (w : Worker) :
    Prop where
  stage : w.stage.Sound settings owners r w.path
  own : r.scopes.Has w.scope
  apart {entry : Nat} {home : Option Nat} (h : (entry, home) ∈ r.homes) :
    r.scopes.Separate w.scope home

/-- What a turn of a worker does to what is shared, and where it leaves the worker. -/
structure Turned (settings : Settings) (contents : Set String) (owners : List String) (w : Worker)
    (r : Run) (after : Worker × Run) : Prop where
  tracks : Tracks settings.toCodec contents owners after.2.cache
  settled : after.2.Settled settings owners
  moves : Moves r.scopes after.2.scopes w.scope after.1.scope
  kept : r.homes ⊆ after.2.homes
  /-- A scope that a document gets is apart from all that there are. -/
  fresh {p : Nat × Option Nat} (h : p ∈ after.2.homes) : p ∈ r.homes ∨
    ∀ t, r.scopes.Has t → after.2.scopes.Separate t p.2
  sound : after.1.Sound settings owners after.2
  flags : after.2.crashed = r.crashed ∧ after.2.canceled = r.canceled ∧
    after.2.withdrawn = r.withdrawn

section Turn

variable {w : Worker} {r : Run}

theorem Run.Settled.mono (h : r.Settled settings owners) (hp : owners <+: owners') :
    r.Settled settings owners' where
  layered := h.layered
  homes hm := by
    obtain ⟨hhas, text, d, howner, hd⟩ := h.homes hm
    exact ⟨hhas, text, d, Document.Cache.owner_mono hp howner, hd⟩

/-- The scopes of documents stay as they are when a worker changes only its own. -/
private theorem Run.Settled.moves (h : r.Settled settings owners) {r' : Run} {s s' : Option Nat}
    (hm : Moves r.scopes r'.scopes s s') (hhomes : r'.homes = r.homes)
    (hapart : ∀ entry home, (entry, home) ∈ r.homes → r.scopes.Separate s home) :
    r'.Settled settings owners where
  layered := hm.layered
  homes {entry home} hmem := by
    rw [hhomes] at hmem
    obtain ⟨hhas, hlook⟩ := h.homes hmem
    rw [hm.view hhas (hapart entry home hmem)]
    exact ⟨hm.has hhas, hlook⟩

/-- A turn in which no document gets a scope. -/
private theorem turned_at_home (hr : r.Settled settings owners) (hw : w.Sound settings owners r)
    {w' : Worker} {r' : Run} (htracks : Tracks settings.toCodec contents owners r'.cache)
    (hhomes : r'.homes = r.homes) (hm : Moves r.scopes r'.scopes w.scope w'.scope)
    (hflags : r'.crashed = r.crashed ∧ r'.canceled = r.canceled ∧ r'.withdrawn = r.withdrawn)
    (hstage : w'.stage.Sound settings owners r' w'.path) :
    Turned settings contents owners w r (w', r') where
  tracks := htracks
  settled := hr.moves hm hhomes fun _ _ => hw.apart
  moves := hm
  kept := hhomes ▸ List.Subset.refl _
  fresh hmem := .inl (hhomes ▸ hmem)
  sound := by
    refine ⟨hstage, hm.own, fun hmem => ?_⟩
    rw [hhomes] at hmem
    exact hm.own_apart (hr.homes hmem).1 (hw.apart hmem)
  flags := hflags

/-- A turn that leaves all scopes alone, after which the worker has none. -/
private theorem turned_quiet (hr : r.Settled settings owners) (hw : w.Sound settings owners r)
    {w' : Worker} {r' : Run} (htracks : Tracks settings.toCodec contents owners r'.cache)
    (hscopes : r'.scopes = r.scopes) (hhomes : r'.homes = r.homes) (hscope : w'.scope = none)
    (hflags : r'.crashed = r.crashed ∧ r'.canceled = r.canceled ∧ r'.withdrawn = r.withdrawn)
    (hstage : w'.stage.Sound settings owners r' w'.path) :
    Turned settings contents owners w r (w', r') := by
  refine turned_at_home hr hw htracks hhomes ?_ hflags hstage
  rw [hscopes, hscope]
  exact (Moves.refl hr.layered hw.own).leave

theorem Worker.Sound.mono (h : w.Sound settings owners r) (hp : owners <+: owners') :
    w.Sound settings owners' r := by
  refine ⟨?_, h.own, h.apart⟩
  have hstage := h.stage
  cases hs : w.stage <;> rw [hs] at hstage
  case reading reader => exact ⟨hstage.1, hstage.2.mono hp⟩
  all_goals exact hstage

/-- Where a reader comes to its document, the document has its scope. -/
private theorem home_turned {reader : Reader} (hreader : reader.Sound settings.toCodec owners)
    {d : Document} (hphase : reader.phase = .returned (.ok d)) (hr : r.Settled settings owners)
    (htracks : Tracks settings.toCodec contents owners r.cache) (hw : w.Sound settings owners r)
    (hscope : w.scope = none) (hpath : settings.read w.path = .ok reader.text) :
    Turned settings contents owners w r
      ({ w with stage := .loaded d (r.home reader.entry d).1 }, (r.home reader.entry d).2) := by
  have hdecode : settings.decode reader.text = .ok d := (hreader.returned hphase).symm
  unfold Run.home
  split
  case h_1 home hlookup =>
    obtain ⟨before, after, hhomes, -⟩ := List.lookup_eq_some_iff.mp hlookup
    have hmem : (reader.entry, home) ∈ r.homes := by simp [hhomes]
    obtain ⟨-, text, d', howner, hd', hlook⟩ := hr.homes hmem
    obtain rfl : text = reader.text := Option.some.inj (howner.symm.trans hreader.owner)
    obtain rfl : d' = d := Except.ok.inj (hd'.symm.trans hdecode)
    exact turned_quiet hr hw htracks rfl rfl rfl ⟨rfl, rfl, rfl⟩
      ⟨⟨_, hpath, hdecode⟩, reader.entry, hmem, hlook⟩
  case h_2 hlookup =>
    have hm := hr.layered.moves_adopt d.scope
    have hcopy := r.scopes.copy_view?_adopt d.scope
    rcases hadopt : r.scopes.adopt d.scope with ⟨home, scopes⟩
    rw [hadopt] at hm hcopy
    have hsettled : Run.Settled settings owners { r with scopes } :=
      hr.moves hm rfl fun _ home _ => r.scopes.none_separate home
    refine ⟨htracks, ⟨hm.layered, ?_⟩, ?_, fun p hp => List.mem_cons_of_mem _ hp, ?_, ?_,
      ⟨rfl, rfl, rfl⟩⟩
    · intro entry home' hmem
      obtain heq | hmem := List.mem_cons.mp hmem
      · obtain ⟨rfl, rfl⟩ := Prod.mk.inj heq
        exact ⟨hm.own, reader.text, d, hreader.owner, hdecode, hcopy⟩
      · exact hsettled.homes hmem
    · rw [hscope]
      exact hm.leave
    · intro p hp
      obtain rfl | hp := List.mem_cons.mp hp
      · exact .inr fun t ht => (hm.own_apart ht (r.scopes.none_separate t)).symm
      · exact .inl hp
    · exact ⟨⟨⟨_, hpath, hdecode⟩, reader.entry, List.mem_cons_self, hcopy⟩, scopes.has_none,
        fun _ => scopes.none_separate _⟩

section Stages

variable {place : Nat} {path : String} (htracks : Tracks settings.toCodec contents owners r.cache)
  (hr : r.Settled settings owners)
include htracks hr

private theorem waiting_turned (hkey : Set.InjOn settings.key contents)
    (hread : ∀ text, settings.read path = .ok text → text ∈ contents)
    (hcanceled : r.canceled = false) (hw : Worker.Sound settings owners r ⟨place, path, .waiting⟩) :
    ∃ owners', owners <+: owners' ∧ Turned settings contents owners' ⟨place, path, .waiting⟩ r
      (Worker.advance settings ⟨place, path, .waiting⟩ r) := by
  simp only [Worker.advance]
  rw [if_neg (Bool.not_eq_true _ ▸ hcanceled)]
  cases ht : settings.read path with
  | error fault =>
    refine ⟨owners, List.prefix_rfl, turned_quiet hr hw htracks rfl rfl rfl ⟨rfl, rfl, rfl⟩ ?_⟩
    simp only [Stage.Sound, outcome, ht]
  | ok text =>
    obtain ⟨owners', hp, htracks', hsound⟩ := htracks.start hkey (hread text ht)
    exact ⟨owners', hp, turned_quiet (hr.mono hp) (hw.mono hp) htracks' rfl rfl rfl
      ⟨rfl, rfl, rfl⟩ ⟨ht, hsound⟩⟩

private theorem reading_turned {reader : Reader}
    (hw : Worker.Sound settings owners r ⟨place, path, .reading reader⟩) :
    Turned settings contents owners ⟨place, path, .reading reader⟩ r
      (Worker.advance settings ⟨place, path, .reading reader⟩ r) := by
  obtain ⟨hpath, hreader⟩ := hw.stage
  obtain ⟨htracks', hsound⟩ := htracks.proceed hreader
  have htext := (reader.proceed_reader settings.toCodec r.cache).1
  rcases hproceed : reader.proceed settings.toCodec r.cache with ⟨reader', fresh, cache⟩
  rw [hproceed] at htracks' hsound htext
  dsimp only at htracks' hsound htext
  have hpath' : settings.read path = .ok reader'.text := htext ▸ hpath
  simp only [Worker.advance, hproceed]
  split
  case h_1 d hphase =>
    let r' := { r with cache }.log (decodeRecords fresh reader'.phase)
    have hr' : r'.Settled settings owners := ⟨hr.layered, hr.homes⟩
    have hw' : Worker.Sound settings owners r' ⟨place, path, .reading reader⟩ :=
      ⟨⟨hpath, hreader⟩, hw.own, hw.apart⟩
    have h := home_turned hsound hphase hr' htracks' hw' rfl hpath'
    exact ⟨h.tracks, h.settled, h.moves, h.kept, h.fresh, h.sound, h.flags⟩
  case h_2 fault hphase =>
    refine turned_quiet hr hw htracks' rfl rfl rfl ⟨rfl, rfl, rfl⟩ ?_
    simp only [Stage.Sound, outcome, hpath', ← hsound.returned hphase]
  case h_3 => exact turned_quiet hr hw htracks' rfl rfl rfl ⟨rfl, rfl, rfl⟩ ⟨hpath', hsound⟩

private theorem loaded_turned {d : Document} {home : Option Nat}
    (hw : Worker.Sound settings owners r ⟨place, path, .loaded d home⟩) :
    Turned settings contents owners ⟨place, path, .loaded d home⟩ r
      (Worker.advance settings ⟨place, path, .loaded d home⟩ r) := by
  obtain ⟨⟨text, hpath, hdecode⟩, entry, hmem, hlook⟩ := hw.stage
  have hm := hr.layered.moves_snapshot? home
  have hview := r.scopes.view?_snapshot? home
  rcases hsnapshot : r.scopes.snapshot? home with ⟨scope, scopes⟩
  rw [hsnapshot] at hm hview
  simp only [Worker.advance, hsnapshot]
  refine turned_at_home hr hw htracks rfl hm ⟨rfl, rfl, rfl⟩ ?_
  simp only [Stage.Sound, hview, hlook, finish_start, outcome, hpath, hdecode]

private theorem processing_turned {work : Work} (halive : r.crashed = false)
    (hcanceled : r.canceled = false)
    (hw : Worker.Sound settings owners r ⟨place, path, .processing work⟩) :
    ((Worker.advance settings ⟨place, path, .processing work⟩ r).2.crashed = true ∧
        outcome settings path = none) ∨
      Turned settings contents owners ⟨place, path, .processing work⟩ r
        (Worker.advance settings ⟨place, path, .processing work⟩ r) := by
  have hstage := hw.stage
  simp only [Stage.Sound] at hstage
  simp only [Worker.advance]
  split
  case h_1 hleft =>
    refine .inr (turned_quiet hr hw htracks rfl rfl rfl ⟨rfl, rfl, rfl⟩ ?_)
    rw [finish_done hleft] at hstage
    exact hstage.symm
  case h_2 e left hleft =>
    rw [hcanceled]
    obtain ⟨hcrash, hnone⟩ | ⟨next, after, result, ds, hnext, hscope, -, -, -, -, hfinish⟩ :=
      @next_cases settings work e left hleft r hr.layered hw.own path
    · rw [hnone] at hstage
      exact .inl ⟨hcrash, hstage.symm⟩
    · have hm := hr.layered.moves_update? hw.own after.scope
      simp only [hnext, Bool.false_eq_true, if_false, Option.getD_some]
      refine .inr (turned_at_home hr hw htracks rfl ?_ ⟨halive.symm, rfl, rfl⟩ ?_)
      · simp only [Worker.scope, hscope]
        exact hm
      · simp only [Stage.Sound, hscope, hfinish, hstage]

end Stages

/-- A turn of a worker: everything breaks down, as the path does alone, or the worker comes closer
to what the path gives. -/
theorem advance_turned (hkey : Set.InjOn settings.key contents)
    (hread : ∀ text, settings.read w.path = .ok text → text ∈ contents)
    (halive : r.crashed = false) (hcanceled : r.canceled = false)
    (htracks : Tracks settings.toCodec contents owners r.cache) (hr : r.Settled settings owners)
    (hw : w.Sound settings owners r) :
    ((w.advance settings r).2.crashed = true ∧ outcome settings w.path = none) ∨
      ∃ owners', owners <+: owners' ∧
        Turned settings contents owners' w r (w.advance settings r) := by
  have hstage := hw.stage
  obtain ⟨place, path, stage⟩ := w
  cases stage with
  | waiting => exact .inr (waiting_turned htracks hr hkey hread hcanceled hw)
  | reading reader => exact .inr ⟨owners, List.prefix_rfl, reading_turned htracks hr hw⟩
  | loaded d home => exact .inr ⟨owners, List.prefix_rfl, loaded_turned htracks hr hw⟩
  | processing work =>
    exact (processing_turned htracks hr halive hcanceled hw).imp_right
      fun h => ⟨owners, List.prefix_rfl, h⟩
  | reporting o =>
    refine .inr ⟨owners, List.prefix_rfl, ?_⟩
    cases o with
    | ok file => exact turned_quiet hr hw htracks rfl rfl rfl ⟨rfl, rfl, rfl⟩ hstage
    | error failure => exact turned_quiet hr hw htracks rfl rfl rfl ⟨rfl, rfl, rfl⟩ hstage
  | counting o | finished o =>
    exact .inr ⟨owners, List.prefix_rfl, turned_quiet hr hw htracks rfl rfl rfl ⟨rfl, rfl, rfl⟩
      hstage⟩
  | withdrawn => exact hstage.elim

/-- A turn of another worker changes nothing for this one. -/
theorem Turned.other {after : Worker × Run}
    (h : Turned settings contents owners' w r after) (hw : w.Sound settings owners r)
    (hr : r.Settled settings owners) (hp : owners <+: owners') {other : Worker}
    (ho : other.Sound settings owners r) (hapart : r.scopes.Separate w.scope other.scope) :
    other.Sound settings owners' after.2 where
  own := h.moves.has ho.own
  apart {entry home} hmem := by
    obtain hold | hnew := h.fresh hmem
    · exact h.moves.apart ho.own (hr.homes hold).1 (ho.apart hold)
    · exact hnew _ ho.own
  stage := by
    have hstage := (ho.mono hp).stage
    cases hs : other.stage <;> rw [hs] at hstage
    case loaded d home =>
      obtain ⟨hdecode, entry, hmem, hlook⟩ := hstage
      refine ⟨hdecode, entry, h.kept hmem, ?_⟩
      rwa [h.moves.view (hr.homes hmem).1 (hw.apart hmem)]
    case processing work =>
      have hown : other.scope = work.scope := by rw [Worker.scope, hs]
      simp only [Stage.Sound]
      rwa [← hown, h.moves.view ho.own hapart, hown]
    all_goals exact hstage

end Turn

end HdlExpr.Batch
