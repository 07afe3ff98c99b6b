import HdlExpr.Proofs.Keyed
import HdlExpr.Proofs.Scope.Bindings

/-!
# Copies

A snapshot copies the cells of a chain of scopes to a table of its own.  The names of a level have
no order of their own, so a snapshot may go through them in any order.  Whatever the order is, the
copy is sound, and its names have the values of the names that they are copied from.
-/

namespace HdlExpr.ScopeGraph

/-- A way to go through the names of each level of a chain. -/
structure Order where
  permute : List Level → List Level
  perm (levels : List Level) : List.Forall₂ List.Perm (permute levels) levels

/-- The order in which names were bound, the latest first. -/
def Order.asBound : Order where
  permute := id
  perm _ := List.forall₂_same.mpr fun level _ => List.Perm.refl level

/-- A snapshot that goes through names in some order. -/
def snapshotAlong (g : ScopeGraph) (order : Order) (s : Nat) : Option Nat × ScopeGraph :=
  let (levels, table) := copyLevels (g.view s).cells (order.permute (g.levels s))
  let (frames, id) := addFrames g.tables.size levels g.frames
  (id, { frames, tables := g.tables.push table })

theorem snapshot_eq (g : ScopeGraph) (s : Nat) : g.snapshot s = g.snapshotAlong .asBound s := rfl

/-! ## Levels -/

/-- The names of a level with new cells, numbered from `n` on. -/
def numbered (n : Nat) : Level → Level
  | [] => []
  | (name, _) :: rest => (name, n) :: numbered (n + 1) rest

private theorem map_fst_numbered (n : Nat) (level : Level) :
    (numbered n level).map Prod.fst = level.map Prod.fst := by
  induction level generalizing n with
  | nil => rfl
  | cons b level ih => rw [numbered, List.map_cons, List.map_cons, ih]

/-- The new cell of a name stands in the place that the name has in the level. -/
theorem slot?_numbered {n j : Nat} {level : Level} {name : String}
    (h : (numbered n level).slot? name = some j) :
    ∃ i old, j = n + i ∧ level[i]? = some (name, old) ∧ level.slot? name = some old := by
  induction level generalizing n with
  | nil => simp [numbered, Level.slot?] at h
  | cons b level ih =>
    obtain ⟨x, old⟩ := b
    by_cases he : name = x
    · subst he
      have hj : n = j := by simpa [numbered, Level.slot?] using h
      exact ⟨0, old, hj.symm, rfl, by simp [Level.slot?]⟩
    · have he' : (name == x) = false := by simp [he]
      have hrest : (numbered (n + 1) level).slot? name = some j := by
        simpa [numbered, Level.slot?, List.lookup_cons, he'] using h
      obtain ⟨i, old', rfl, hi, hold⟩ := ih hrest
      refine ⟨i + 1, old', by omega, hi, ?_⟩
      simpa [Level.slot?, List.lookup_cons, he'] using hold

theorem isSome_slot? (level : Level) (name : String) :
    (level.slot? name).isSome = true ↔ name ∈ level.map Prod.fst := by
  rw [← not_iff_not, Bool.not_eq_true, Option.isSome_eq_false_iff, Option.isNone_iff_eq_none,
    Level.slot?, List.lookup_eq_none_iff]
  constructor
  · intro h hm
    obtain ⟨p, hp, rfl⟩ := List.mem_map.mp hm
    simpa using h p hp
  · intro h p hp
    have hne : name ≠ p.1 := fun he => h (he ▸ List.mem_map_of_mem hp)
    simpa using hne

def copied (cells : Array Value) (slot : Nat) : Value := (cells[slot]?).getD .invalid

private theorem copyLevel_eq (cells : Array Value) (level : Level) (table : Array Value) :
    copyLevel cells level table =
      (numbered table.size level, table ++ (level.map fun b => copied cells b.2).toArray) := by
  have hfold : ∀ (copy : Level) (table : Array Value),
      level.foldl (fun r b => (r.1 ++ [(b.1, r.2.size)], r.2.push (copied cells b.2)))
        (copy, table) =
      (copy ++ numbered table.size level,
        table ++ (level.map fun b => copied cells b.2).toArray) := by
    induction level with
    | nil => simp [numbered]
    | cons b level ih =>
      intro copy table
      rw [List.foldl_cons, ih]
      simp [numbered, copied]
  exact (hfold [] table).trans (by rw [List.nil_append])

/-! ## Chains of levels -/

def slotAt (levels : List Level) (d : Nat) (name : String) : Option Nat :=
  (levels[d]?).bind (·.slot? name)

/-- What copying levels gives: the same names, each with a new cell of its own that holds the value
of the old one. -/
structure LevelCopies (cells : Array Value) (levels copies : List Level) (table : Array Value) :
    Prop where
  names : copies.map (·.map Prod.fst) = levels.map (·.map Prod.fst)
  value {d j : Nat} {name : String} (h : slotAt copies d name = some j) :
    ∃ i, slotAt levels d name = some i ∧ table[j]? = some (copied cells i)
  own {d d' j : Nat} {name name' : String} (h : slotAt copies d name = some j)
    (h' : slotAt copies d' name' = some j) : d = d' ∧ name = name'
  source {v : Value} (h : v ∈ table) : ∃ i, v = copied cells i

private theorem copyLevels_copies (cells : Array Value) (levels : List Level) :
    LevelCopies cells levels (copyLevels cells levels).1 (copyLevels cells levels).2 := by
  induction levels with
  | nil =>
    refine ⟨rfl, ?_, ?_, ?_⟩
    · simp [copyLevels, slotAt]
    · simp [copyLevels, slotAt]
    · simp [copyLevels]
  | cons level rest ih =>
    rw [copyLevels]
    generalize copyLevels cells rest = r at ih
    obtain ⟨outer, table⟩ := r
    simp only [copyLevel_eq] at ih ⊢
    -- The cells of the outer levels lie below those of the inner one.
    have houter {d j : Nat} {name : String} (h : slotAt outer d name = some j) :
        j < table.size := by
      obtain ⟨i, _, hj⟩ := ih.value h
      exact (Array.getElem?_eq_some_iff.mp hj).1
    have hinner {j : Nat} {name : String} (h : (numbered table.size level).slot? name = some j) :
        table.size ≤ j := by
      obtain ⟨i, _, rfl, _⟩ := slot?_numbered h
      omega
    refine ⟨?_, ?_, ?_, ?_⟩
    · rw [List.map_cons, List.map_cons, ih.names, map_fst_numbered]
    · intro d j name h
      cases d with
      | zero =>
        obtain ⟨i, old, rfl, hi, hold⟩ := slot?_numbered h
        refine ⟨old, hold, ?_⟩
        rw [Array.getElem?_append_right (Nat.le_add_right _ _)]
        simp [hi]
      | succ d =>
        obtain ⟨i, hi, hj⟩ := ih.value h
        exact ⟨i, hi, by rw [Array.getElem?_append_left (houter h)]; exact hj⟩
    · intro d d' j name name' h h'
      cases d with
      | zero =>
        cases d' with
        | zero =>
          obtain ⟨i, old, hj, hi, _⟩ := slot?_numbered h
          obtain ⟨i', old', hj', hi', _⟩ := slot?_numbered h'
          obtain rfl : i = i' := by omega
          rw [hi, Option.some.injEq, Prod.mk.injEq] at hi'
          exact ⟨rfl, hi'.1⟩
        | succ d' =>
          have hlow := houter h'
          have hhigh := hinner h
          omega
      | succ d =>
        cases d' with
        | zero =>
          have hlow := houter h
          have hhigh := hinner h'
          omega
        | succ d' =>
          obtain ⟨hd, hname⟩ := ih.own h h'
          exact ⟨congrArg (· + 1) hd, hname⟩
    · intro v hv
      rcases Array.mem_append.mp hv with hv | hv
      · exact ih.source hv
      · obtain ⟨b, _, rfl⟩ := List.mem_map.mp (List.mem_toArray.mp hv)
        exact ⟨b.2, rfl⟩

theorem LevelCopies.isSome_slotAt {cells : Array Value} {levels copies : List Level}
    {table : Array Value} (h : LevelCopies cells levels copies table) (d : Nat) (name : String) :
    (slotAt copies d name).isSome = true ↔ (slotAt levels d name).isSome = true := by
  have hd := congrArg (·[d]?) h.names
  simp only [List.getElem?_map] at hd
  unfold slotAt
  cases hc : copies[d]? with
  | none =>
    rw [hc, Option.map_none, eq_comm, Option.map_eq_none_iff] at hd
    rw [hd]
  | some copy =>
    rw [hc, Option.map_some, eq_comm, Option.map_eq_some_iff] at hd
    obtain ⟨level, hl, he⟩ := hd
    rw [hl, Option.bind_some, Option.bind_some, isSome_slot?, isSome_slot?, he]

/-! ## New scopes -/

/-- The last of `k` scopes that are numbered from `n` on. -/
def last? (n : Nat) : Nat → Option Nat
  | 0 => none
  | k + 1 => some (n + k)

/-- The scopes of a copy, innermost first: `k` scopes that are numbered from `n` on, each inside of
the one before. -/
def copies (n : Nat) : Nat → List Nat
  | 0 => []
  | k + 1 => (n + k) :: copies n k

theorem length_copies (n k : Nat) : (copies n k).length = k := by
  induction k with
  | zero => rfl
  | succ k ih => rw [copies, List.length_cons, ih]

theorem mem_copies {n k q : Nat} : q ∈ copies n k ↔ n ≤ q ∧ q < n + k := by
  induction k with
  | zero => simp [copies]
  | succ k ih =>
    rw [copies, List.mem_cons, ih]
    omega

private theorem getElem?_copies (n k d : Nat) :
    (copies n k)[d]? = if d < k then some (n + (k - 1 - d)) else none := by
  induction k generalizing d with
  | zero => simp [copies]
  | succ k ih =>
    cases d with
    | zero => simp [copies]
    | succ d =>
      have hpos : k + 1 - 1 - (d + 1) = k - 1 - d := by omega
      rw [copies, List.getElem?_cons_succ, ih, hpos]
      simp

/-- The level of a copied scope is the copy of the level that stands at its depth. -/
theorem addFrames_spec (table : Nat) (levels : List Level) (frames : Array Frame) :
    (addFrames table levels frames).2 = last? frames.size levels.length ∧
      (addFrames table levels frames).1.size = frames.size + levels.length ∧
      (∀ s < frames.size, (addFrames table levels frames).1[s]? = frames[s]?) ∧
      ∀ d level, levels[d]? = some level →
        (addFrames table levels frames).1[frames.size + (levels.length - 1 - d)]? =
          some ⟨last? frames.size (levels.length - 1 - d), table, level⟩ := by
  induction levels with
  | nil => simp [addFrames, last?]
  | cons level rest ih =>
    rw [addFrames]
    generalize addFrames table rest frames = r at ih
    obtain ⟨frames', parent⟩ := r
    obtain ⟨hparent, hsize, hold, hnew⟩ := ih
    dsimp only at hparent hsize hold hnew ⊢
    refine ⟨?_, ?_, fun s hs => ?_, fun d level' hd => ?_⟩
    · rw [List.length_cons, last?, hsize]
    · rw [Array.size_push, hsize, List.length_cons]
      omega
    · rw [Array.getElem?_push, if_neg (by omega), hold s hs]
    · cases d with
      | zero =>
        obtain rfl : level = level' := by simpa using hd
        have hlast : frames.size + ((level :: rest).length - 1 - 0) = frames'.size := by
          rw [List.length_cons]
          omega
        rw [hlast, Array.getElem?_push, if_pos rfl, hparent, List.length_cons]
        rfl
      | succ d =>
        rw [List.getElem?_cons_succ] at hd
        have hlt : d < rest.length := (List.getElem?_eq_some_iff.mp hd).1
        have hpos : (level :: rest).length - 1 - (d + 1) = rest.length - 1 - d := by
          rw [List.length_cons]
          omega
        rw [hpos, Array.getElem?_push, if_neg (by omega), hnew d level' hd]

/-- What a snapshot of a chain does: new scopes, each inside of the one before, with a new table and
the values of the scopes of the chain. -/
structure Copies (g g' : ScopeGraph) (ps : List Nat) : Prop where
  sound : g'.Sound
  grows : Grows g g'
  frames_size : g'.frames.size = g.frames.size + ps.length
  outline {i : Nat} (h : i < ps.length) :
    g'.outline (g.frames.size + i) = some (last? g.frames.size i, g.tables.size)
  value {d p q : Nat} (hp : ps[d]? = some p) (hq : (copies g.frames.size ps.length)[d]? = some q)
    (name : String) : g'.value? ⟨q, name⟩ = g.value? ⟨p, name⟩

/-- The scopes behind the old ones are the copies. -/
theorem outline_copied {g g' : ScopeGraph} {k : Nat}
    (hsize : g'.frames.size = g.frames.size + k)
    (hnew : ∀ {i : Nat}, i < k →
      g'.outline (g.frames.size + i) = some (last? g.frames.size i, g.tables.size))
    {t : Nat} {o : Option Nat × Nat} (ht : g.frames.size ≤ t) (ho : g'.outline t = some o) :
    ∃ i, i < k ∧ t = g.frames.size + i ∧ o = (last? g.frames.size i, g.tables.size) := by
  have hlt := lt_size_of_outline ho
  rw [hsize] at hlt
  obtain ⟨i, rfl⟩ := Nat.exists_eq_add_of_le ht
  have hi : i < k := by omega
  rw [hnew hi, Option.some.injEq] at ho
  exact ⟨i, hi, rfl, ho.symm⟩

/-! ## Adopted scopes -/

section Adopt

variable (g : ScopeGraph) (scope : Scope)

theorem adopt_fst : (g.adopt scope).1 = last? g.frames.size scope.levels.length :=
  (addFrames_spec g.tables.size scope.levels g.frames).1

theorem adopt_grows : Grows g (g.adopt scope).2 := by
  obtain ⟨_, _, hold, _⟩ := addFrames_spec g.tables.size scope.levels g.frames
  refine ⟨fun hs => hold _ hs, fun ht => ?_, ?_⟩
  · exact (Array.getElem?_push ..).trans (if_neg (Nat.ne_of_lt ht))
  · exact Nat.le_of_lt (Nat.lt_of_lt_of_eq (Nat.lt_succ_self _) (Array.size_push _).symm)

theorem frames_size_adopt :
    (g.adopt scope).2.frames.size = g.frames.size + scope.levels.length :=
  (addFrames_spec g.tables.size scope.levels g.frames).2.1

variable {i : Nat} (hi : i < scope.levels.length)

include hi

private theorem frames_adopt :
    ∃ level, scope.levels[scope.levels.length - 1 - i]? = some level ∧
      (g.adopt scope).2.frames[g.frames.size + i]? =
        some ⟨last? g.frames.size i, g.tables.size, level⟩ := by
  obtain ⟨_, _, _, hnew⟩ := addFrames_spec g.tables.size scope.levels g.frames
  have hd : scope.levels.length - 1 - i < scope.levels.length := by omega
  refine ⟨_, List.getElem?_eq_getElem hd, ?_⟩
  have hframe := hnew _ _ (List.getElem?_eq_getElem hd)
  have hpos : scope.levels.length - 1 - (scope.levels.length - 1 - i) = i := by omega
  rw [hpos] at hframe
  exact hframe

theorem outline_adopt :
    (g.adopt scope).2.outline (g.frames.size + i) =
      some (last? g.frames.size i, g.tables.size) := by
  obtain ⟨level, _, hframe⟩ := frames_adopt g scope hi
  exact outline_of_frames hframe

theorem levels_adopt :
    (g.adopt scope).2.levels (g.frames.size + i) =
      scope.levels.drop (scope.levels.length - 1 - i) := by
  induction i with
  | zero =>
    obtain ⟨level, hlevel, hframe⟩ := frames_adopt g scope hi
    obtain ⟨hlt, rfl⟩ := List.getElem?_eq_some_iff.mp hlevel
    have hlast : scope.levels.length ≤ scope.levels.length - 1 - 0 + 1 := by omega
    rw [levels, hframe, List.drop_eq_getElem_cons hlt, List.drop_of_length_le hlast]
    rfl
  | succ i ih =>
    obtain ⟨level, hlevel, hframe⟩ := frames_adopt g scope hi
    obtain ⟨hlt, rfl⟩ := List.getElem?_eq_some_iff.mp hlevel
    have hnext : scope.levels.length - 1 - (i + 1) + 1 = scope.levels.length - 1 - i := by omega
    have hinside : g.frames.size + i < g.frames.size + (i + 1) := by omega
    rw [levels, hframe, List.drop_eq_getElem_cons hlt, hnext, ← ih (by omega)]
    simp only [last?, if_pos hinside]

end Adopt

private theorem outline_adopt_cases {g : ScopeGraph} {scope : Scope} {t : Nat}
    (ht : g.frames.size ≤ t) {o : Option Nat × Nat} (ho : (g.adopt scope).2.outline t = some o) :
    ∃ i < scope.levels.length, t = g.frames.size + i ∧ o = (last? g.frames.size i, g.tables.size) :=
  outline_copied (frames_size_adopt g scope) (outline_adopt g scope) ht ho

private theorem adopt_parent {g : ScopeGraph} {scope : Scope} {t p table : Nat}
    (ht : g.frames.size ≤ t) (ho : (g.adopt scope).2.outline t = some (some p, table)) :
    p < t ∧ (g.adopt scope).2.tableOf p = table := by
  obtain ⟨i, hi, rfl, he⟩ := outline_adopt_cases ht ho
  cases i with
  | zero => cases he
  | succ i =>
    obtain ⟨rfl, rfl⟩ : p = g.frames.size + i ∧ table = g.tables.size := by
      simpa [last?] using he
    exact ⟨by omega, tableOf_of_outline (outline_adopt g scope (by omega))⟩

private theorem adopt_table_lt {g : ScopeGraph} {scope : Scope} {t table : Nat}
    {parent : Option Nat}
    (ht : g.frames.size ≤ t) (ho : (g.adopt scope).2.outline t = some (parent, table)) :
    table < (g.adopt scope).2.tables.size := by
  obtain ⟨i, hi, rfl, he⟩ := outline_adopt_cases ht ho
  obtain ⟨_, rfl⟩ := Prod.mk.inj he
  exact Nat.lt_of_lt_of_eq (Nat.lt_succ_self _) (Array.size_push _).symm

theorem Layered.adopt {g : ScopeGraph} (h : g.Layered) (scope : Scope) :
    (g.adopt scope).2.Layered :=
  h.grow (adopt_grows g scope) (fun _ _ _ ht ho => adopt_parent ht ho)
    fun _ _ _ ht ho => adopt_table_lt ht ho

/-! ## Snapshots -/

section Snapshot

variable {g : ScopeGraph} (h : g.Sound) (order : Order) (s : Nat)

/-- The levels that a snapshot makes, and its table. -/
def copiedLevels (g : ScopeGraph) (order : Order) (s : Nat) : List Level × Array Value :=
  copyLevels (g.view s).cells (order.permute (g.levels s))

private theorem length_copiedLevels (g : ScopeGraph) :
    (copiedLevels g order s).1.length = (g.chain s).length := by
  have hnames := congrArg List.length (copyLevels_copies (g.view s).cells
    (order.permute (g.levels s))).names
  have hlevels : (g.levels s).length = (g.chain s).length := by rw [levels_eq_map, List.length_map]
  rw [List.length_map, List.length_map, (order.perm (g.levels s)).length_eq, hlevels] at hnames
  exact hnames

include h in
private theorem nodup_permute {level : Level} (hm : level ∈ order.permute (g.levels s)) :
    (level.map Prod.fst).Nodup := by
  obtain ⟨d, hd⟩ := List.mem_iff_getElem?.mp hm
  have hlength := (order.perm (g.levels s)).length_eq
  obtain ⟨hlt, rfl⟩ := List.getElem?_eq_some_iff.mp hd
  have hperm := (order.perm (g.levels s)).get hlt (by omega)
  refine ((List.Perm.map Prod.fst hperm).nodup_iff).mpr ?_
  have hlevel : (g.levels s)[d] ∈ (g.chain s).map g.levelOf := by
    rw [← levels_eq_map]
    exact List.getElem_mem _
  obtain ⟨p, _, hp⟩ := List.mem_map.mp hlevel
  have hnodup := h.nodup p
  rw [hp] at hnodup
  exact hnodup

include h in
private theorem slotAt_permute (d : Nat) (name : String) :
    slotAt (order.permute (g.levels s)) d name = slotAt (g.levels s) d name := by
  have hnodup (level : Level) (hm : level ∈ order.permute (g.levels s)) :=
    nodup_permute h order s hm
  have hperm := order.perm (g.levels s)
  generalize order.permute (g.levels s) = levels at hperm hnodup
  generalize g.levels s = levels' at hperm
  induction hperm generalizing d with
  | nil => rfl
  | cons hp _ ih =>
    obtain ⟨hlevel, hrest⟩ := List.forall_mem_cons.mp hnodup
    cases d with
    | zero => exact Keyed.lookup_perm hp (Keyed.consistent_of_nodup hlevel) name
    | succ d => exact ih d hrest

private theorem snapshotAlong_eq (g : ScopeGraph) :
    ∃ scope : Scope, scope.levels = (copiedLevels g order s).1 ∧
      scope.cells = (copiedLevels g order s).2 ∧ g.snapshotAlong order s = g.adopt scope :=
  ⟨⟨(copiedLevels g order s).1, (copiedLevels g order s).2⟩, rfl, rfl, rfl⟩

theorem snapshotAlong_fst (g : ScopeGraph) :
    (g.snapshotAlong order s).1 = last? g.frames.size (g.chain s).length := by
  obtain ⟨scope, hlevels, -, heq⟩ := snapshotAlong_eq order s g
  rw [heq, adopt_fst, hlevels, length_copiedLevels]

private theorem snapshotAlong_grows (g : ScopeGraph) : Grows g (g.snapshotAlong order s).2 := by
  obtain ⟨scope, -, -, heq⟩ := snapshotAlong_eq order s g
  exact heq ▸ adopt_grows g scope

private theorem frames_snapshotAlong (g : ScopeGraph) {i : Nat} (hi : i < (g.chain s).length) :
    ∃ level, (copiedLevels g order s).1[(g.chain s).length - 1 - i]? = some level ∧
      (g.snapshotAlong order s).2.frames[g.frames.size + i]? =
        some ⟨last? g.frames.size i, g.tables.size, level⟩ := by
  obtain ⟨scope, hlevels, -, heq⟩ := snapshotAlong_eq order s g
  rw [← length_copiedLevels order s g, ← hlevels] at hi ⊢
  rw [heq]
  exact frames_adopt g scope hi

private theorem frames_size_snapshotAlong (g : ScopeGraph) :
    (g.snapshotAlong order s).2.frames.size = g.frames.size + (g.chain s).length := by
  obtain ⟨scope, hlevels, -, heq⟩ := snapshotAlong_eq order s g
  rw [heq, frames_size_adopt, hlevels, length_copiedLevels]

private theorem outline_snapshotAlong (g : ScopeGraph) {i : Nat} (hi : i < (g.chain s).length) :
    (g.snapshotAlong order s).2.outline (g.frames.size + i) =
      some (last? g.frames.size i, g.tables.size) := by
  obtain ⟨level, _, hframe⟩ := frames_snapshotAlong order s g hi
  exact outline_of_frames hframe

private theorem cell?_snapshotAlong (g : ScopeGraph) {i : Nat} (hi : i < (g.chain s).length)
    (name : String) :
    (g.snapshotAlong order s).2.cell? ⟨g.frames.size + i, name⟩ =
      (slotAt (copiedLevels g order s).1 ((g.chain s).length - 1 - i) name).map
        (⟨g.tables.size, ·⟩) := by
  obtain ⟨level, hlevel, hframe⟩ := frames_snapshotAlong order s g hi
  have ho := outline_of_frames hframe
  rw [cell?, tableOf_of_outline ho, levelOf, hframe, slotAt, hlevel]
  rfl

private theorem stored?_snapshotAlong (g : ScopeGraph) (j : Nat) :
    (g.snapshotAlong order s).2.stored? ⟨g.tables.size, j⟩ = (copiedLevels g order s).2[j]? := by
  have htable : (g.snapshotAlong order s).2.tables[g.tables.size]? =
      some (copiedLevels g order s).2 := (Array.getElem?_push ..).trans (if_pos rfl)
  rw [stored?, htable]
  rfl

include h

/-- A copied name has a cell exactly when the name that it is copied from has one, and both cells
hold the same. -/
theorem slotAt_copied {d p : Nat} (hp : (g.chain s)[d]? = some p) (name : String) :
    (slotAt (copiedLevels g order s).1 d name).bind ((copiedLevels g order s).2[·]?) =
      g.value? ⟨p, name⟩ := by
  have hcopies := copyLevels_copies (g.view s).cells (order.permute (g.levels s))
  have hlevel : slotAt (g.levels s) d name = (g.levelOf p).slot? name := by
    rw [slotAt, levels_eq_map, List.getElem?_map, hp]
    rfl
  have hsome := hcopies.isSome_slotAt d name
  rw [slotAt_permute h order s, hlevel] at hsome
  cases hslot : slotAt (copiedLevels g order s).1 d name with
  | none =>
    have hnone : (g.levelOf p).slot? name = none := by
      rw [← Option.not_isSome_iff_eq_none, ← hsome, ← copiedLevels, hslot]
      simp
    rw [value?, cell?, hnone]
    rfl
  | some j =>
    obtain ⟨i, hi, hj⟩ := hcopies.value hslot
    rw [slotAt_permute h order s, hlevel] at hi
    have hcell : g.cell? ⟨p, name⟩ = some ⟨g.tableOf p, i⟩ := by rw [cell?, hi]; rfl
    obtain ⟨v, hv⟩ := h.stored hcell
    have htable : g.tableOf p = g.tableOf s := h.tableOf_of_mem_chain (List.mem_of_getElem? hp)
    have hview : (g.view s).cells[i]? = some v := (view_cells htable).trans hv
    rw [Option.bind_some, value?, hcell, Option.bind_some, hv, ← Option.getD_some (a := v), ← hview]
    exact hj

private theorem nodup_snapshotAlong {t : Nat} (ht : g.frames.size ≤ t) :
    (((g.snapshotAlong order s).2.levelOf t).map Prod.fst).Nodup := by
  have hcopies := copyLevels_copies (g.view s).cells (order.permute (g.levels s))
  cases ho : (g.snapshotAlong order s).2.outline t with
  | none =>
    rw [levelOf_eq_nil ho]
    exact List.nodup_nil
  | some o =>
    obtain ⟨i, hi, rfl, _⟩ := outline_copied (frames_size_snapshotAlong order s g)
      (outline_snapshotAlong order s g) ht ho
    obtain ⟨level, hlevel, hframe⟩ := frames_snapshotAlong order s g hi
    have hnames : level.map Prod.fst ∈ (order.permute (g.levels s)).map (·.map Prod.fst) := by
      rw [← hcopies.names]
      exact List.mem_map_of_mem (List.mem_of_getElem? hlevel)
    obtain ⟨level', hm, he⟩ := List.mem_map.mp hnames
    rw [levelOf, hframe, Option.map_some, Option.getD_some, ← he]
    exact nodup_permute h order s hm

omit h in
/-- The cells of copied scopes are those of the copied levels. -/
theorem cell?_copied {b : Binding} {c : Cell} (hb : g.frames.size ≤ b.scope)
    (hc : (g.snapshotAlong order s).2.cell? b = some c) :
    ∃ i, i < (g.chain s).length ∧ b.scope = g.frames.size + i ∧ c.table = g.tables.size ∧
      slotAt (copiedLevels g order s).1 ((g.chain s).length - 1 - i) b.name = some c.slot := by
  obtain ⟨parent, ho⟩ := outline_of_cell? hc
  obtain ⟨i, hi, hbi, _⟩ := outline_copied (frames_size_snapshotAlong order s g)
    (outline_snapshotAlong order s g) hb ho
  obtain ⟨t, name⟩ := b
  obtain rfl : t = g.frames.size + i := hbi
  rw [cell?_snapshotAlong order s g hi, Option.map_eq_some_iff] at hc
  obtain ⟨j, hj, rfl⟩ := hc
  exact ⟨i, hi, rfl, rfl, hj⟩

private theorem copied_cell_own {b b' : Binding} {c : Cell} (hb : g.frames.size ≤ b.scope)
    (hc : (g.snapshotAlong order s).2.cell? b = some c)
    (hc' : (g.snapshotAlong order s).2.cell? b' = some c) : b = b' := by
  obtain ⟨i, hi, hbi, htable, hslot⟩ := cell?_copied order s hb hc
  -- An old binding has its cell in an old table.
  have hb' : g.frames.size ≤ b'.scope := by
    by_contra hlt
    rw [(snapshotAlong_grows order s g).cell (Nat.not_le.mp hlt)] at hc'
    have hold := (h.lt_of_cell? hc').2
    omega
  obtain ⟨i', hi', hbi', _, hslot'⟩ := cell?_copied order s hb' hc'
  have hcopies := copyLevels_copies (g.view s).cells (order.permute (g.levels s))
  obtain ⟨hd, hname⟩ := hcopies.own hslot hslot'
  obtain ⟨t, name⟩ := b
  obtain ⟨t', name'⟩ := b'
  simp only at hbi hbi' hname
  rw [Binding.mk.injEq]
  exact ⟨by omega, hname⟩

private theorem copied_unmarked (i : Nat) : (copied (g.view s).cells i).lvalue = false := by
  rw [copied]
  cases hview : (g.view s).cells[i]? with
  | none => rfl
  | some w => exact h.unmarked ((view_cells (c := ⟨g.tableOf s, i⟩) rfl).symm.trans hview)

private theorem snapshotAlong_sound : (g.snapshotAlong order s).2.Sound := by
  have hcopies := copyLevels_copies (g.view s).cells (order.permute (g.levels s))
  have hsize : (g.snapshotAlong order s).2.tables.size = g.tables.size + 1 := Array.size_push _
  obtain ⟨scope, -, -, heq⟩ := snapshotAlong_eq order s g
  refine h.grow (snapshotAlong_grows order s g) (fun t p table ht ho => ?_)
    (fun t table parent ht ho => ?_) (fun t ht => nodup_snapshotAlong h order s ht) ?_
    (fun b b' c hb hc hc' => copied_cell_own h order s hb hc hc') ?_
  · rw [heq] at ho ⊢
    exact adopt_parent ht ho
  · rw [heq] at ho ⊢
    exact adopt_table_lt ht ho
  · intro b c hb hc
    obtain ⟨i, hi, hbi, htable, hslot⟩ := cell?_copied order s hb hc
    obtain ⟨table, slot⟩ := c
    obtain rfl : table = g.tables.size := htable
    obtain ⟨_, _, hj⟩ := hcopies.value hslot
    exact ⟨_, (stored?_snapshotAlong order s g slot).trans hj⟩
  · intro c v hc hv
    obtain ⟨table, slot⟩ := c
    obtain ⟨cells, hcells, hslot⟩ := Option.bind_eq_some_iff.mp hv
    have hlt := (Array.getElem?_eq_some_iff.mp hcells).1
    simp only at hc hlt
    obtain rfl : table = g.tables.size := by omega
    rw [stored?_snapshotAlong] at hv
    obtain ⟨i, rfl⟩ := hcopies.source (Array.mem_of_getElem? hv)
    exact copied_unmarked h s i

/-- A snapshot copies the chain of its scope, in whatever order. -/
theorem snapshotAlong_copies : Copies g (g.snapshotAlong order s).2 (g.chain s) where
  sound := snapshotAlong_sound h order s
  grows := snapshotAlong_grows order s g
  frames_size := frames_size_snapshotAlong order s g
  outline hi := outline_snapshotAlong order s g hi
  value := by
    intro d p q hp hq name
    rw [getElem?_copies] at hq
    have hd : d < (g.chain s).length := (List.getElem?_eq_some_iff.mp hp).1
    obtain rfl : g.frames.size + ((g.chain s).length - 1 - d) = q := by simpa [hd] using hq
    have hpos : (g.chain s).length - 1 - ((g.chain s).length - 1 - d) = d := by omega
    rw [← slotAt_copied h order s hp name, value?, cell?_snapshotAlong order s g (by omega), hpos,
      Option.bind_map]
    congr 1
    funext j
    exact stored?_snapshotAlong order s g j

end Snapshot

end HdlExpr.ScopeGraph
