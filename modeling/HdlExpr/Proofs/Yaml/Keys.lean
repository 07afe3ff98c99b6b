import Mathlib.Tactic.SplitIfs
import HdlExpr.Yaml.Node

/-!
# Keys of mappings

No mapping in the data that a document describes has a key twice, because the last entry with a key
counts.  A name stands for a node that was read before it, so names bring nothing new.
-/

namespace HdlExpr

/-- Data in which no mapping has a key twice. -/
inductive Plain.Distinct : Plain → Prop where
  | null : Distinct .null
  | bool (b : Bool) : Distinct (.bool b)
  | int (i : Int) : Distinct (.int i)
  | uint (n : Nat) : Distinct (.uint n)
  | real (x : Float) : Distinct (.real x)
  | text (s : String) : Distinct (.text s)
  | list {items : List Plain} (h : ∀ v ∈ items, Distinct v) : Distinct (.list items)
  | map {entries : List (String × Plain)} (hkeys : (entries.map Prod.fst).Nodup)
      (h : ∀ e ∈ entries, Distinct e.2) : Distinct (.map entries)

theorem Plain.distinct_map_iff {entries : List (String × Plain)} :
    (Plain.map entries).Distinct ↔
      (entries.map Prod.fst).Nodup ∧ ∀ e ∈ entries, e.2.Distinct := by
  constructor
  · intro h
    cases h with
    | map hkeys hvalues => exact ⟨hkeys, hvalues⟩
  · rintro ⟨hkeys, hvalues⟩
    exact .map hkeys hvalues

namespace Yaml

/-! ## Scalars -/

private theorem distinct_of_number? {word : List Char} {v : Plain} (h : number? word = some v) :
    v.Distinct := by
  simp only [number?, whole?, pointed?] at h
  repeat' split at h
  all_goals cases h
  all_goals constructor

private theorem distinct_resolve (word : List Char) : (resolve word).Distinct := by
  rw [resolve]
  split
  case h_21 =>
    cases h : number? word with
    | none => exact .text _
    | some v => exact distinct_of_number? h
  all_goals constructor

private theorem distinct_of_scalar? {t : Token} {v : Plain} (h : t.scalar? = some v) :
    v.Distinct := by
  rw [Token.scalar?] at h
  split at h
  all_goals cases h
  · exact distinct_resolve _
  all_goals constructor

namespace Node

/-! ## Data of nodes -/

/-- A node whose scalars, at every depth, have no double keys. -/
inductive Proper : Node → Prop where
  | scalar {v : Plain} (h : v.Distinct) (label : Label) : Proper (.scalar v label)
  | list {items : List Node} (h : ∀ n ∈ items, Proper n) : Proper (.list items)
  | map {entries : List (Plain × Node)} (h : ∀ e ∈ entries, Proper e.2) : Proper (.map entries)
  | cycle : Proper .cycle

private theorem proper_null (label : Label) :
    (Node.scalar .null label).Proper := .scalar .null label

theorem Proper.labelled {n : Node} (h : n.Proper) (label : Label) : (n.labelled label).Proper := by
  cases h with
  | scalar hv _ => exact .scalar hv label
  | list h => exact .list h
  | map h => exact .map h
  | cycle => exact .cycle

@[simp] private theorem itemsToPlain_eq_map (items : List Node) :
    itemsToPlain items = items.map toPlain := by
  induction items with
  | nil => rfl
  | cons n items ih => rw [itemsToPlain, ih, List.map_cons]

private theorem distinct_addEntry {key : String} {v : Plain} {done : List (String × Plain)}
    (hdone : (Plain.map done).Distinct) (hv : v.Distinct) :
    (Plain.map (addEntry key v done)).Distinct := by
  rw [Plain.distinct_map_iff] at hdone ⊢
  rw [addEntry]
  constructor
  · have hkept : ((done.filter (·.1 != key)).map Prod.fst).Nodup :=
      hdone.1.sublist (List.filter_sublist.map Prod.fst)
    rw [List.map_append, List.nodup_append]
    refine ⟨hkept, by simp, ?_⟩
    simp
  · intro e he
    rcases List.mem_append.mp he with he | he
    · exact hdone.2 e (List.mem_filter.mp he).1
    · rw [List.mem_singleton.mp he]
      exact hv

private theorem distinct_entriesToPlain {done : List (String × Plain)}
    {entries : List (Plain × Node)}
    (hdone : (Plain.map done).Distinct) (h : ∀ e ∈ entries, e.2.toPlain.Distinct) :
    (Plain.map (entriesToPlain done entries)).Distinct := by
  induction entries generalizing done with
  | nil => exact hdone
  | cons e entries ih =>
    rw [entriesToPlain]
    apply ih
    · rw [entryToPlain]
      exact distinct_addEntry hdone (h e (by simp))
    · intro e' he'
      exact h e' (by simp [he'])

theorem Proper.distinct {n : Node} (h : n.Proper) : n.toPlain.Distinct := by
  induction h with
  | scalar hv label => exact hv
  | list _ ih =>
    rw [toPlain, itemsToPlain_eq_map]
    apply Plain.Distinct.list
    intro v hv
    obtain ⟨n, hn, rfl⟩ := List.mem_map.mp hv
    exact ih n hn
  | map _ ih =>
    rw [toPlain]
    exact distinct_entriesToPlain (.map .nil (by simp)) ih
  | cycle => exact .null

theorem Proper.fields {n : Node} {fields : List (String × Node)} (hn : n.Proper)
    (h : n.fields? = some fields) : (fields.map Prod.fst).Nodup ∧ ∀ e ∈ fields, e.2.Proper := by
  cases hn with
  | scalar | list | cycle => cases h
  | map hentries =>
    rw [fields?] at h
    dsimp only at h
    split_ifs at h with hkeys
    cases h
    refine ⟨hkeys, ?_⟩
    intro e he
    obtain ⟨entry, hentry, rfl⟩ := List.mem_map.mp he
    exact hentries entry hentry

/-! ## Readers -/

def Cursor.Proper (s : Cursor) : Prop := ∀ p ∈ s.names, p.2.Proper

namespace Reader

/-- A reader that gives names to proper nodes only, and whose results have a property. -/
def Keeps {α : Type} (r : Reader α) (P : α → Prop) : Prop :=
  ∀ s a s', s.Proper → r s = some (a, s') → P a ∧ s'.Proper

section

variable {α β : Type} {P : α → Prop} {Q : β → Prop}

private theorem keeps_malformed : Keeps malformed P := by
  intro s a s' _ h
  cases h

private theorem keeps_pure {a : α} (ha : P a) : Keeps (pure a) P := by
  intro s a' s' hs h
  cases h
  exact ⟨ha, hs⟩

private theorem keeps_bind {r : Reader α} {f : α → Reader β} (hr : Keeps r P)
    (hf : ∀ a, P a → Keeps (f a) Q) : Keeps (r >>= f) Q := by
  intro s b s' hs h
  obtain ⟨⟨a, s₁⟩, hrun, hrest⟩ := Option.bind_eq_some_iff.mp h
  obtain ⟨ha, hs₁⟩ := hr s a s₁ hs hrun
  exact hf a ha s₁ b s' hs₁ hrest

private theorem keeps_skip {r : Reader α} {f : α → Reader β} (hr : Keeps r fun _ => True)
    (hf : ∀ a, Keeps (f a) Q) : Keeps (r >>= f) Q :=
  keeps_bind hr fun a _ => hf a

private theorem keeps_malformed_bind {f : α → Reader β} : Keeps (malformed >>= f) Q :=
  keeps_bind (P := fun _ => False) keeps_malformed fun _ h => h.elim

end

private theorem keeps_peek : Keeps peek fun _ => True := by
  intro s a s' hs h
  cases h
  exact ⟨trivial, hs⟩

private theorem keeps_second : Keeps second fun _ => True := by
  intro s a s' hs h
  cases h
  exact ⟨trivial, hs⟩

private theorem keeps_drop : Keeps drop fun _ => True := by
  intro s a s' hs h
  cases h
  exact ⟨trivial, hs⟩

private theorem keeps_name (name : String) {n : Node} (hn : n.Proper) :
    Keeps (Reader.bind name n) fun _ => True := by
  intro s a s' hs h
  cases h
  refine ⟨trivial, ?_⟩
  intro p hp
  rcases List.mem_cons.mp hp with rfl | hp
  · exact hn
  · exact hs p hp

private theorem keeps_named (name : String) : Keeps (named name) Node.Proper := by
  intro s n s' hs h
  obtain ⟨n', hfound, heq⟩ := Option.map_eq_some_iff.mp h
  cases heq
  obtain ⟨before, after, hnames, -⟩ := List.lookup_eq_some_iff.mp hfound
  exact ⟨hs (name, n) (by simp [hnames]), hs⟩

private theorem keeps_nameOf (p : Piece) : Keeps (nameOf p) fun _ => True := by
  unfold nameOf
  split
  · split
    · exact keeps_pure trivial
    · exact keeps_malformed
  · exact keeps_malformed

private theorem keeps_scalar (p : Piece) : Keeps (Reader.scalar p) Node.Proper := by
  fun_induction Reader.scalar p with
  | case1 t v hv => exact keeps_pure (.scalar (distinct_of_scalar? hv) _)
  | case3 | case4 => exact keeps_pure (.scalar (.text _) _)
  | case6 mark name =>
    apply keeps_skip (keeps_nameOf name)
    intro name
    apply keeps_bind (keeps_named name)
    intro n hn
    exact keeps_pure (hn.labelled _)
  | case7 mark name value ih =>
    apply keeps_skip (keeps_nameOf name)
    intro name
    apply keeps_skip (keeps_name name (proper_null _))
    intro _
    apply keeps_bind ih
    intro n hn
    apply keeps_skip (keeps_name name hn)
    intro _
    exact keeps_pure (hn.labelled _)
  | case2 | case5 | case8 => exact keeps_malformed

private theorem keeps_key (flow : Bool) (seen : List String) (p : Piece) :
    Keeps (Reader.key flow seen p) fun _ => True := by
  unfold Reader.key
  extract_lets rest
  have hrest : ∀ x, Keeps (rest x) fun _ => True := by
    rintro ⟨word, colon⟩
    dsimp only [rest]
    split
    · exact keeps_malformed_bind
    · apply keeps_bind (keeps_scalar word)
      intro n _
      split
      · exact keeps_pure trivial
      · exact keeps_malformed
  split
  · exact keeps_skip (keeps_pure trivial) hrest
  · exact keeps_skip (keeps_pure trivial) hrest
  · exact keeps_skip (keeps_pure trivial) hrest
  · exact keeps_malformed_bind

private theorem keeps_namedNull (p : Option Piece) : Keeps (namedNull p) Node.Proper := by
  unfold namedNull
  split
  · next mark name =>
    apply keeps_skip keeps_drop
    intro _
    apply keeps_skip (keeps_nameOf name)
    intro name
    apply keeps_skip (keeps_name name (proper_null _))
    intro _
    exact keeps_pure (proper_null _)
  · exact keeps_malformed

/-- What the readers of collections keep with some fuel. -/
structure KeepsAll (fuel : Nat) : Prop where
  node (flow : Bool) : Keeps (node flow fuel) Node.Proper
  blockEntries (flow : Bool) (seen : List String) :
    Keeps (blockEntries flow fuel seen) fun entries => ∀ e ∈ entries, e.2.Proper
  entryValue (flow : Bool) (parent : Token) :
    Keeps (entryValue flow fuel parent) Node.Proper
  blockItems (flow : Bool) : Keeps (blockItems flow fuel) fun items => ∀ n ∈ items, n.Proper
  itemValue (flow : Bool) (parent : Token) : Keeps (itemValue flow fuel parent) Node.Proper
  flowItems {done : List Node} (hdone : ∀ n ∈ done, n.Proper) :
    Keeps (flowItems fuel done) fun items => ∀ n ∈ items, n.Proper
  flowEntries (seen : List String) {done : List (Plain × Node)}
    (hdone : ∀ e ∈ done, e.2.Proper) :
    Keeps (flowEntries fuel seen done) fun entries => ∀ e ∈ entries, e.2.Proper

section

variable {fuel : Nat}

private theorem keeps_node (ih : KeepsAll fuel) (flow : Bool) :
    Keeps (Reader.node flow (fuel + 1)) Node.Proper := by
  rw [Reader.node]
  apply keeps_skip keeps_peek
  intro next
  split
  · exact keeps_malformed
  · next mark name =>
    apply keeps_skip keeps_drop
    intro _
    apply keeps_skip (keeps_nameOf name)
    intro name
    apply keeps_skip keeps_peek
    intro next
    split
    · exact keeps_malformed
    · exact keeps_malformed
    · apply keeps_skip (keeps_name name .cycle)
      intro _
      apply keeps_bind (ih.node flow)
      intro n hn
      apply keeps_skip (keeps_name name hn)
      intro _
      exact keeps_pure (hn.labelled _)
  · next p _ =>
    split
    · apply keeps_bind (ih.blockEntries flow [])
      intro entries hentries
      exact keeps_pure (.map hentries)
    · split
      · apply keeps_skip keeps_drop
        intro _
        apply keeps_bind (ih.flowEntries [] (by simp))
        intro entries hentries
        exact keeps_pure (.map hentries)
      · apply keeps_skip keeps_drop
        intro _
        apply keeps_bind (ih.flowItems (by simp))
        intro items hitems
        exact keeps_pure (.list hitems)
      · apply keeps_bind (ih.blockItems flow)
        intro items hitems
        exact keeps_pure (.list hitems)
      · apply keeps_bind (keeps_scalar p)
        intro n hn
        apply keeps_skip keeps_drop
        intro _
        exact keeps_pure hn

private theorem keeps_value (ih : KeepsAll fuel) (flow : Bool) (next : Option Piece)
    (isNull : Option Piece → Bool) {p q : Prop} [Decidable p] [Decidable q] :
    Keeps (do
      if isNull (← second) then namedNull next
      else if p then malformed
      else if q then return .scalar .null
      else Reader.node flow fuel) Node.Proper := by
  apply keeps_skip keeps_second
  intro after
  split
  · exact keeps_namedNull next
  · split
    · exact keeps_malformed
    · split
      · exact keeps_pure (proper_null _)
      · exact ih.node flow

private theorem keeps_entryValue (ih : KeepsAll fuel) (flow : Bool) (parent : Token) :
    Keeps (Reader.entryValue flow (fuel + 1) parent) Node.Proper := by
  rw [Reader.entryValue]
  apply keeps_skip keeps_peek
  intro next
  split
  · exact keeps_pure (proper_null _)
  · dsimp only
    split
    · exact keeps_malformed_bind
    · split
      · exact keeps_pure (proper_null _)
      · exact keeps_value ih flow _ _

private theorem keeps_itemValue (ih : KeepsAll fuel) (flow : Bool) (parent : Token) :
    Keeps (Reader.itemValue flow (fuel + 1) parent) Node.Proper := by
  rw [Reader.itemValue]
  apply keeps_skip keeps_peek
  intro next
  split
  · exact keeps_pure (proper_null _)
  · split
    · exact keeps_pure (proper_null _)
    · exact keeps_value ih flow _ _

private theorem keeps_blockItems (ih : KeepsAll fuel) (flow : Bool) :
    Keeps (Reader.blockItems flow (fuel + 1)) fun items => ∀ n ∈ items, n.Proper := by
  rw [Reader.blockItems]
  apply keeps_skip keeps_peek
  intro next
  split
  · exact keeps_malformed
  · next p =>
    apply keeps_skip keeps_drop
    intro _
    apply keeps_bind (ih.itemValue flow p.first)
    intro n hn
    apply keeps_skip keeps_peek
    intro next
    split
    · apply keeps_bind (ih.blockItems flow)
      intro items hitems
      exact keeps_pure (List.forall_mem_cons.mpr ⟨hn, hitems⟩)
    · exact keeps_pure (by simpa using hn)

private theorem keeps_flowItems (ih : KeepsAll fuel) {done : List Node}
    (hdone : ∀ n ∈ done, n.Proper) :
    Keeps (Reader.flowItems (fuel + 1) done) fun items => ∀ n ∈ items, n.Proper := by
  have hend : Keeps (do drop; return done.reverse) fun items => ∀ n ∈ items, n.Proper := by
    apply keeps_skip keeps_drop
    intro _
    exact keeps_pure (by simpa using hdone)
  rw [Reader.flowItems]
  apply keeps_skip keeps_peek
  intro next
  split
  · exact hend
  · extract_lets rest
    have hrest : ∀ u, Keeps (rest u) fun items => ∀ n ∈ items, n.Proper := by
      intro _
      apply keeps_skip keeps_peek
      intro next
      split
      · exact hend
      · apply keeps_bind (ih.node true)
        intro n hn
        exact ih.flowItems (List.forall_mem_cons.mpr ⟨hn, hdone⟩)
    split
    · apply keeps_skip keeps_peek
      intro next
      split
      · exact keeps_malformed_bind
      · exact keeps_skip keeps_drop hrest
    · exact hrest ()

private theorem keeps_flowEntries (ih : KeepsAll fuel) (seen : List String)
    {done : List (Plain × Node)} (hdone : ∀ e ∈ done, e.2.Proper) :
    Keeps (Reader.flowEntries (fuel + 1) seen done) fun entries => ∀ e ∈ entries, e.2.Proper := by
  have hend : Keeps (do drop; return done.reverse)
      fun entries => ∀ e ∈ entries, e.2.Proper := by
    apply keeps_skip keeps_drop
    intro _
    exact keeps_pure (by simpa using hdone)
  have hmore : ∀ seen key {n : Node}, n.Proper →
      Keeps (Reader.flowEntries fuel seen ((key, n) :: done))
        fun entries => ∀ e ∈ entries, e.2.Proper := by
    intro seen key n hn
    exact ih.flowEntries seen (List.forall_mem_cons.mpr ⟨hn, hdone⟩)
  rw [Reader.flowEntries]
  apply keeps_skip keeps_peek
  intro next
  split
  · exact hend
  · apply keeps_skip keeps_peek
    intro next
    extract_lets rest
    have hrest : ∀ u, Keeps (rest u) fun entries => ∀ e ∈ entries, e.2.Proper := by
      intro _
      apply keeps_skip keeps_peek
      intro next
      split
      · exact hend
      · apply keeps_skip keeps_peek
        intro next
        split
        · exact keeps_malformed
        · next word v =>
          apply keeps_skip (keeps_key true seen word)
          intro k
          apply keeps_bind (keeps_scalar v)
          intro n hn
          apply keeps_skip keeps_drop
          intro _
          exact hmore _ _ hn
        · next p _ =>
          apply keeps_skip keeps_second
          intro next
          dsimp only
          split
          · apply keeps_skip (keeps_key true seen p)
            intro k
            apply keeps_skip keeps_drop
            intro _
            split
            · exact hmore _ _ (proper_null _)
            · apply keeps_bind (ih.node true)
              intro n hn
              exact hmore _ _ hn
          · split
            · apply keeps_bind (keeps_scalar p)
              intro n _
              split
              · apply keeps_skip keeps_drop
                intro _
                exact hmore _ _ (proper_null _)
              · exact keeps_malformed
            · exact keeps_malformed
    split
    · exact keeps_skip keeps_drop hrest
    · split
      · exact keeps_malformed_bind
      · exact hrest ()

private theorem keeps_blockEntries (ih : KeepsAll fuel) (flow : Bool) (seen : List String) :
    Keeps (Reader.blockEntries flow (fuel + 1) seen) fun entries => ∀ e ∈ entries, e.2.Proper := by
  rw [Reader.blockEntries]
  apply keeps_skip keeps_peek
  intro next
  split
  · exact keeps_malformed
  · next p =>
    extract_lets rest
    have hrest : ∀ k (n : Node), n.Proper →
        Keeps (rest (k, n)) fun entries => ∀ e ∈ entries, e.2.Proper := by
      intro k n hn
      have hone : ∀ e ∈ [(k.value, n)], e.2.Proper := by simpa using hn
      apply keeps_skip keeps_peek
      intro next
      dsimp only
      split
      · exact keeps_pure hone
      · split
        · exact keeps_malformed_bind
        · split
          · apply keeps_skip keeps_drop
            intro _
            exact keeps_pure hone
          · apply keeps_bind (ih.blockEntries flow _)
            intro entries hentries
            exact keeps_pure (List.forall_mem_cons.mpr ⟨hn, hentries⟩)
    split
    · next word v =>
      apply keeps_skip (keeps_key flow seen word)
      intro k
      apply keeps_bind (keeps_scalar v)
      intro n hn
      apply keeps_skip keeps_drop
      intro _
      apply keeps_skip keeps_peek
      intro next
      dsimp only
      split
      · exact keeps_malformed_bind
      · exact hrest k n hn
    · apply keeps_skip (keeps_key flow seen _)
      intro k
      apply keeps_skip keeps_drop
      intro _
      apply keeps_skip keeps_peek
      intro next
      dsimp only
      split
      · exact keeps_malformed_bind
      · apply keeps_bind (ih.entryValue flow k.first)
        intro n hn
        exact hrest k n hn

end

private theorem keepsAll (fuel : Nat) : KeepsAll fuel := by
  induction fuel with
  | zero =>
    constructor <;> intros <;> exact keeps_malformed
  | succ fuel ih =>
    exact ⟨keeps_node ih, keeps_blockEntries ih, keeps_entryValue ih, keeps_blockItems ih,
      keeps_itemValue ih, keeps_flowItems ih, keeps_flowEntries ih⟩

end Reader

/-! ## Documents -/

private theorem proper_of_ofPieces? {names names' : List (String × Node)} {pieces : List Piece}
    {found : Option Node} (hnames : ∀ p ∈ names, p.2.Proper)
    (h : ofPieces? names pieces = some (found, names')) :
    (∀ n ∈ found, n.Proper) ∧ ∀ p ∈ names', p.2.Proper := by
  unfold ofPieces? at h
  split at h
  · cases h
    exact ⟨by simp, hnames⟩
  · split at h
    · cases h
      exact ⟨by simp, hnames⟩
    · cases h
  · next p rest _ =>
    split at h
    · next n names₁ hrun =>
      have hs : Cursor.Proper { pieces := p :: rest, names } := hnames
      obtain ⟨hn, hs'⟩ := (Reader.keepsAll _).node false _ n _ hs hrun
      dsimp only at h
      split_ifs at h with hdepth hnothing
      · cases h
        exact ⟨by simp, hs'⟩
      · cases h
        refine ⟨?_, hs'⟩
        rintro m ⟨⟩
        exact hn
    · cases h

private theorem proper_of_ofDocuments? {names : List (String × Node)}
    {documents : List (List Piece)} {n : Node} (hnames : ∀ p ∈ names, p.2.Proper)
    (h : ofDocuments? names documents = some (some n)) : n.Proper := by
  induction documents generalizing names with
  | nil => cases h
  | cons pieces documents ih =>
    rw [ofDocuments?] at h
    split at h
    · cases h
    · next found names' hpieces =>
      obtain ⟨hfound, hnames'⟩ := proper_of_ofPieces? hnames hpieces
      obtain ⟨later, hlater, hor⟩ := Option.map_eq_some_iff.mp h
      cases found with
      | none => exact ih hnames' (hlater.trans (congrArg some hor))
      | some m =>
        cases hor
        exact hfound n rfl

theorem proper_of_read {text : String} {n : Node} (h : read text = some (some n)) :
    n.Proper := by
  simp only [read, Option.bind_eq_bind, Option.bind_eq_some_iff] at h
  obtain ⟨tokens, -, pieces, -, documents, -, h⟩ := h
  exact proper_of_ofDocuments? (by simp) h

end Node

end Yaml

end HdlExpr
