import Mathlib.Data.List.Forall2
import Mathlib.Data.List.Permutation
import Mathlib.Data.String.Basic
import Mathlib.Tactic.NormNum
import HdlExpr.Document.Basic
import HdlExpr.Proofs.Keyed
import HdlExpr.Proofs.Text.ByteOrder

/-!
# Levels of bindings

The levels of a document are bound from the outermost inward, each in the order of its names, over
one table of cells.  A name then has the value of the innermost level that has it.  If some value is
not supported, the fault is about the least name that has such a value in the outermost level with
one.  The order in which the names of a level are listed does not matter.
-/

namespace HdlExpr

/-! ## Cells -/

/-- The names of a level have cells that hold the given values, and other names have none. -/
def Level.Binds (cells : Array Value) (level : Level) (f : String → Option Value) : Prop :=
  ∀ name, (level.slot? name).map (cells[·]?) = (f name).map some

namespace Level.Binds

variable {cells : Array Value} {level : Level} {f : String → Option Value}

private theorem push (h : level.Binds cells f) (v : Value) : level.Binds (cells.push v) f := by
  intro name
  have hname := h name
  cases hslot : level.slot? name with
  | none => simpa [hslot] using hname
  | some i =>
    cases hf : f name with
    | none => simp [hslot, hf] at hname
    | some x =>
      have hcell : cells[i]? = some x := by simpa [hslot, hf] using hname
      obtain ⟨hi, hx⟩ := Array.getElem?_eq_some_iff.mp hcell
      simp [Array.getElem?_push, Nat.ne_of_lt hi, hcell]

private theorem cons (h : level.Binds cells f) (name : String) (v : Value) :
    Level.Binds (cells.push v) ((name, cells.size) :: level)
      (Function.update f name (some v)) := by
  intro other
  by_cases ho : other = name
  · subst ho
    simp [Level.slot?]
  · have ho' : (other == name) = false := by simp [ho]
    have hrest := h.push v other
    simpa [Level.slot?, List.lookup_cons, ho', ho] using hrest

end Level.Binds

namespace Scope

/-- The levels of a scope bind the given values. -/
def Describes (s : Scope) (fs : List (String → Option Value)) : Prop :=
  List.Forall₂ (Level.Binds s.cells) s.levels fs

namespace Describes

variable {s : Scope} {f : String → Option Value} {fs : List (String → Option Value)}

private theorem enter (h : s.Describes fs) : s.enter.Describes ((fun _ => none) :: fs) := by
  apply List.Forall₂.cons
  · intro name
    rfl
  · exact h

/-- A name that is new in the innermost level gets a cell behind all others. -/
theorem set (h : s.Describes (f :: fs)) {name : String} (hname : f name = none) (v : Value) :
    (s.set name v).Describes (Function.update f name (some v.asRvalue) :: fs) := by
  obtain ⟨levels, cells⟩ := s
  cases h with
  | @cons level _ levels _ hlevel hrest =>
    have hslot : level.slot? name = none := by
      have := hlevel name
      rwa [hname, Option.map_none, Option.map_eq_none_iff] at this
    simp only [Scope.set, set?, hslot]
    exact .cons (hlevel.cons name _) (hrest.imp fun _ _ hb => hb.push _)

private theorem lookup_eq (h : s.Describes fs) (name : String) :
    (s.lookup name).map (s.cells[·]?) = (fs.findSome? (· name)).map some := by
  obtain ⟨levels, cells⟩ := s
  change List.Forall₂ (Level.Binds cells) levels fs at h
  change (levels.findSome? (·.slot? name)).map (cells[·]?) = _
  induction h with
  | nil => rfl
  | @cons level f levels fs hlevel _ ih =>
    have hname := hlevel name
    cases hslot : level.slot? name with
    | none =>
      have hf : f name = none := by simpa [hslot] using hname
      simpa [List.findSome?_cons, hslot, hf] using ih
    | some i =>
      obtain ⟨x, hx⟩ : ∃ x, f name = some x := by
        cases hf : f name with
        | none => simp [hslot, hf] at hname
        | some x => exact ⟨x, rfl⟩
      simpa [List.findSome?_cons, hslot, hx] using hname

private theorem get?_eq (h : s.Describes fs) (name : String) :
    s.get? name = (fs.findSome? (· name)).map Value.asLvalue := by
  have hname := h.lookup_eq name
  rw [Scope.get?]
  cases hslot : s.lookup name with
  | none =>
    rw [hslot, Option.map_none, eq_comm, Option.map_eq_none_iff] at hname
    rw [hname, Option.map_none, Option.map_none]
  | some i =>
    obtain ⟨x, hx, hcell⟩ := Option.map_eq_some_iff.mp (hslot ▸ hname).symm
    have hload : s.load i = x.asLvalue := by
      change some x = s.cells[i]? at hcell
      rw [load, ← hcell, Option.getD_some]
    rw [hx, Option.map_some, Option.map_some, hload]

end Describes

end Scope

namespace Document

/-! ## Values -/

def converted (v : Plain) : Option Value := Value.ofPlain? (normalize v)

private theorem asRvalue_converted {v : Plain} {x : Value} (h : converted v = some x) :
    x.asRvalue = x := by
  unfold converted at h
  cases hv : normalize v with
  | null | list items | map entries => simp [hv, Value.ofPlain?] at h
  | int i | uint n | real r | text t =>
    obtain rfl : _ = x := by simpa [hv, Value.ofPlain?] using h
    rfl
  | bool b =>
    obtain rfl : _ = x := by simpa [hv, Value.ofPlain?] using h
    rfl

/-- What the names of a level are bound to. -/
def boundIn (values : List (String × Plain)) (name : String) : Option Value :=
  (values.lookup name).bind converted

/-- Whether all values of a level are supported. -/
def Supported (values : List (String × Plain)) : Prop := ∀ b ∈ values, (converted b.2).isSome

/-! ## One level -/

private theorem bindAll_describes {s : Scope} {f : String → Option Value}
    {fs : List (String → Option Value)} {values : List (String × Plain)}
    (hdistinct : (values.map Prod.fst).Nodup) (hvalues : Supported values)
    (hfresh : ∀ b ∈ values, f b.1 = none) (h : s.Describes (f :: fs)) :
    ∃ s', bindAll s values = .ok s' ∧
      s'.Describes ((fun name => (boundIn values name).or (f name)) :: fs) := by
  induction values generalizing s f with
  | nil => exact ⟨s, rfl, h⟩
  | cons b values ih =>
    obtain ⟨name, v⟩ := b
    obtain ⟨hname, hrest⟩ := List.nodup_cons.mp hdistinct
    obtain ⟨x, hx⟩ := Option.isSome_iff_exists.mp (hvalues _ List.mem_cons_self)
    have hset := h.set (hfresh _ List.mem_cons_self) x
    rw [asRvalue_converted hx] at hset
    obtain ⟨s', hrun, hs'⟩ := ih hrest (fun b hb => hvalues b (List.mem_cons_of_mem _ hb))
      (by
        intro b hb
        have hne : b.1 ≠ name := fun he => hname (List.mem_map.mpr ⟨b, hb, he⟩)
        rw [Function.update_of_ne hne]
        exact hfresh b (List.mem_cons_of_mem _ hb)) hset
    refine ⟨s', ?_, ?_⟩
    · rw [converted] at hx
      simp only [bindAll, hx, hrun]
    · convert hs' using 2
      funext other
      by_cases ho : other = name
      · subst ho
        have hnone : values.lookup other = none := by
          rw [List.lookup_eq_none_iff]
          intro b hb
          rw [bne_iff_ne]
          intro he
          exact hname (List.mem_map.mpr ⟨b, hb, he.symm⟩)
        simp [boundIn, hnone, hx]
      · have ho' : (other == name) = false := by simp [ho]
        simp [boundIn, List.lookup_cons, ho', ho]

private theorem bindAll_stops (s : Scope) {values : List (String × Plain)}
    (h : ¬ Supported values) :
    ∃ before name v after, values = before ++ (name, v) :: after ∧ Supported before ∧
      converted v = none ∧ bindAll s values = .error (.unsupportedValue name v.typeName) := by
  induction values generalizing s with
  | nil => exact absurd (fun b hb => absurd hb List.not_mem_nil) h
  | cons b values ih =>
    obtain ⟨name, v⟩ := b
    cases hv : converted v with
    | none =>
      refine ⟨[], name, v, values, rfl, fun b hb => absurd hb List.not_mem_nil, hv, ?_⟩
      rw [converted] at hv
      simp only [bindAll, hv]
    | some x =>
      have hrest : ¬ Supported values := by
        intro hvalues
        apply h
        intro b hb
        rcases List.mem_cons.mp hb with rfl | hb
        · simp [hv]
        · exact hvalues b hb
      obtain ⟨before, name', v', after, rfl, hbefore, hnone, hrun⟩ := ih (s.set name x) hrest
      refine ⟨(name, v) :: before, name', v', after, rfl, ?_, hnone, ?_⟩
      · intro b hb
        rcases List.mem_cons.mp hb with rfl | hb
        · simp [hv]
        · exact hbefore b hb
      · rw [converted] at hv
        simp only [bindAll, hv, hrun]

/-! ## Chains -/

/-- What becomes of levels: a scope that binds them, or a fault about the least name without a value
in the outermost level that is not supported. -/
theorem chain_cases {levels : List (List (String × Plain))}
    (hdistinct : ∀ values ∈ levels, (values.map Prod.fst).Nodup) :
    ((∀ values ∈ levels, Supported values) ∧ ∃ s, chain levels = .ok s ∧
      s.Describes (levels.map boundIn ++ [fun _ => none])) ∨
    ∃ inner values outer name v, levels = inner ++ values :: outer ∧
      (∀ values ∈ outer, Supported values) ∧ (name, v) ∈ values ∧ converted v = none ∧
      (∀ b ∈ values, converted b.2 = none → name ≤ b.1) ∧
      chain levels = .error (.unsupportedValue name v.typeName) := by
  induction levels with
  | nil =>
    refine .inl ⟨by simp, _, rfl, ?_⟩
    exact .cons (fun name => rfl) .nil
  | cons values outer ih =>
    obtain ⟨hvalues, houter⟩ := List.forall_mem_cons.mp hdistinct
    rcases ih houter with ⟨hall, s, hrun, hs⟩ | ⟨inner, l, outer, name, v, rfl, h⟩
    · -- The sorted values have the same names, each once.
      have hperm := List.mergeSort_perm values fun a b => decide (a.1 ≤ b.1)
      have hmem {b : String × Plain} := hperm.mem_iff (a := b)
      by_cases hsupported : Supported values
      · left
        obtain ⟨s', hbind, hs'⟩ := bindAll_describes ((hperm.map Prod.fst).nodup_iff.mpr hvalues)
          (fun b hb => hsupported b (hmem.mp hb)) (fun _ _ => rfl) hs.enter
        refine ⟨List.forall_mem_cons.mpr ⟨hsupported, hall⟩, s', ?_, ?_⟩
        · simp only [chain, hrun, hbind]
        · have hbound : (fun name => (boundIn (values.mergeSort fun a b => decide (a.1 ≤ b.1))
              name).or none) = boundIn values := by
            funext name
            simp [boundIn, Keyed.lookup_perm hperm.symm (Keyed.consistent_of_nodup hvalues)]
          rwa [hbound] at hs'
      · right
        have hsorted := Keyed.pairwise_mergeSort values
        obtain ⟨before, name, v, after, hsplit, hbefore, hnone, hbind⟩ :=
          bindAll_stops s.enter fun h => hsupported fun b hb => h b (hmem.mpr hb)
        refine ⟨[], values, outer, name, v, rfl, hall, ?_, hnone, ?_, ?_⟩
        · exact hmem.mp (hsplit ▸ by simp)
        · intro b hb hbnone
          rw [← hmem, hsplit] at hb
          rw [hsplit, List.pairwise_append] at hsorted
          rcases List.mem_append.mp hb with hb | hb
          · simpa [hbnone] using hbefore b hb
          · rcases List.mem_cons.mp hb with rfl | hb
            · exact le_refl name
            · exact List.rel_of_pairwise_cons hsorted.2.1 hb
        · simp only [chain, hrun, hbind]
    · right
      obtain ⟨hall, hmem, hnone, hleast, hrun⟩ := h
      refine ⟨values :: inner, l, outer, name, v, rfl, hall, hmem, hnone, hleast, ?_⟩
      simp only [chain, hrun]

private theorem chain_perm {levels levels' : List (List (String × Plain))}
    (hdistinct : ∀ values ∈ levels, (values.map Prod.fst).Nodup)
    (horder : List.Forall₂ List.Perm levels levels') : chain levels' = chain levels := by
  induction horder with
  | nil => rfl
  | @cons values values' outer outer' hperm _ ih =>
    obtain ⟨hvalues, houter⟩ := List.forall_mem_cons.mp hdistinct
    rw [chain, chain, ih houter, Keyed.mergeSort_perm hperm hvalues]

private theorem findSome?_boundIn {levels : List (List (String × Plain))}
    (h : ∀ values ∈ levels, Supported values) (name : String) :
    (levels.map boundIn ++ [fun _ => none]).findSome? (fun f : String → Option Value => f name) =
      (levels.findSome? (·.lookup name)).bind converted := by
  induction levels with
  | nil => rfl
  | cons values levels ih =>
    obtain ⟨hvalues, hlevels⟩ := List.forall_mem_cons.mp h
    rw [List.map_cons, List.cons_append, List.findSome?_cons, List.findSome?_cons, boundIn]
    cases hv : values.lookup name with
    | none => simpa using ih hlevels
    | some v =>
      obtain ⟨x, hx⟩ := Option.isSome_iff_exists.mp (hvalues _ (Keyed.mem_of_lookup hv))
      simp [hx]

/-! ## Whole numbers -/

/-- A value is a whole number without a width. -/
def IsWhole (v : Option Value) (signed : Bool) (k : Int) : Prop :=
  ∃ i : Integer, v = some (.ofInteger i) ∧ i.signed = signed ∧ i.width = 0 ∧ i.toInt = k

private theorem isWhole_signed {k : Int} (hlow : -2 ^ 63 ≤ k) (hhigh : k < 2 ^ 63) :
    IsWhole (some (.signed (BitVec.ofInt 64 k))) true k := by
  refine ⟨⟨BitVec.ofInt 64 k, 0, true⟩, rfl, rfl, rfl, ?_⟩
  change (BitVec.ofInt 64 k).toInt = k
  rw [BitVec.toInt_ofInt]
  apply Int.bmod_eq_of_le <;> norm_num at * <;> omega

private theorem isWhole_unsigned {n : Nat} (h : n < 2 ^ 64) :
    IsWhole (some (.unsigned (BitVec.ofNat 64 n))) false n := by
  refine ⟨⟨BitVec.ofNat 64 n, 0, false⟩, rfl, rfl, rfl, ?_⟩
  change ((BitVec.ofNat 64 n).toNat : Int) = n
  rw [BitVec.toNat_ofNat, Nat.mod_eq_of_lt h]

/-- Whole numbers are signed where they fit into 64 bits with a sign. -/
theorem converted_whole :
    (∀ i : Int, -2 ^ 63 ≤ i → i < 2 ^ 63 → IsWhole (converted (.int i)) true i) ∧
    (∀ n : Nat, n < 2 ^ 63 → IsWhole (converted (.uint n)) true n) ∧
    (∀ n : Nat, 2 ^ 63 ≤ n → n < 2 ^ 64 → IsWhole (converted (.uint n)) false n) := by
  refine ⟨?_, ?_, ?_⟩
  · intro i hlow hhigh
    exact isWhole_signed hlow hhigh
  · intro n h
    have hn : normalize (.uint n) = .int n := if_pos h
    rw [converted, hn]
    exact isWhole_signed (by omega) (by exact_mod_cast h)
  · intro n hlow hhigh
    have hn : normalize (.uint n) = .uint n := if_neg (Nat.not_lt.mpr hlow)
    rw [converted, hn]
    exact isWhole_unsigned hhigh

/-! ## Documents -/

/-- Levels become the same scope, or the same fault, in whatever order their names are listed.  They
become a scope exactly if all their values are supported, and then a name has the value of the
innermost level that has it, and none if no level has it.  Otherwise the fault is about a name of
the outermost level that is not supported, and of the names there whose values are not supported it
is the least in the order of bytes. -/
theorem levels_shadow (levels levels' : List (List (String × Plain)))
    (hdistinct : ∀ values ∈ levels, (values.map Prod.fst).Nodup)
    (horder : List.Forall₂ List.Perm levels levels') :
    chain levels' = chain levels ∧
    ((∃ s, chain levels = .ok s) ↔ ∀ values ∈ levels, ∀ b ∈ values, (converted b.2).isSome) ∧
    (∀ s, chain levels = .ok s → ∀ name,
      s.get? name = ((levels.findSome? (·.lookup name)).bind converted).map Value.asLvalue) ∧
    (∀ fault, chain levels = .error fault → ∃ inner values outer name v,
      levels = inner ++ values :: outer ∧
      (∀ values ∈ outer, ∀ b ∈ values, (converted b.2).isSome) ∧
      (name, v) ∈ values ∧ converted v = none ∧
      (∀ b ∈ values, converted b.2 = none → Text.bytes name ≤ Text.bytes b.1) ∧
      fault = .unsupportedValue name v.typeName) ∧
    (∀ i : Int, -2 ^ 63 ≤ i → i < 2 ^ 63 → IsWhole (converted (.int i)) true i) ∧
    (∀ n : Nat, n < 2 ^ 63 → IsWhole (converted (.uint n)) true n) ∧
    (∀ n : Nat, 2 ^ 63 ≤ n → n < 2 ^ 64 → IsWhole (converted (.uint n)) false n) := by
  refine ⟨chain_perm hdistinct horder, ?_⟩
  rcases chain_cases hdistinct with ⟨hall, s, hrun, hs⟩ |
    ⟨inner, values, outer, name, v, hlevels, hall, hmem, hnone, hleast, hrun⟩
  · refine ⟨?_, ?_, ?_, converted_whole⟩
    · exact iff_of_true ⟨s, hrun⟩ hall
    · intro s' hs' name
      obtain rfl : s = s' := by simpa [hrun] using hs'
      rw [hs.get?_eq, findSome?_boundIn hall]
    · simp [hrun]
  · refine ⟨?_, ?_, ?_, converted_whole⟩
    · apply iff_of_false
      · simp [hrun]
      · intro hsupported
        have hsome := hsupported values (by simp [hlevels]) _ hmem
        simp [hnone] at hsome
    · simp [hrun]
    · intro fault hfault
      obtain rfl : _ = fault := by simpa [hrun] using hfault
      refine ⟨inner, values, outer, name, v, hlevels, hall, hmem, hnone, ?_, rfl⟩
      intro b hb hbnone
      exact Text.bytes_le_iff.mpr (hleast b hb hbnone)

/-- A level inside another that has one of its names. -/
def shadowing : List (List (String × Plain)) :=
  [[("b", .uint 9223372036854775808), ("a", .bool true)], [("c", .text "t"), ("a", .int (-1))]]

/-- Two levels with values that are not supported. -/
def unsupported : List (List (String × Plain)) :=
  [[("a", .null)], [("z", .list []), ("b", .null)]]

theorem levels_shadow_innerAndOuter :
    ((∀ values ∈ shadowing, (values.map Prod.fst).Nodup) ∧
      ∀ values ∈ unsupported, (values.map Prod.fst).Nodup) ∧
    chain [[("a", .bool true), ("b", .uint 9223372036854775808)],
      [("a", .int (-1)), ("c", .text "t")]] = chain shadowing ∧
    (∃ s, chain shadowing = .ok s ∧ s.get? "a" = some (Value.scalar 1).asLvalue ∧
      s.get? "c" = some (Value.text "t").asLvalue ∧ s.get? "d" = none) ∧
    chain unsupported = .error (.unsupportedValue "b" "<nil>") ∧
    ¬ ∃ s, chain unsupported = .ok s := by
  have hd : ∀ values ∈ shadowing, (values.map Prod.fst).Nodup := by decide
  have hd' : ∀ values ∈ unsupported, (values.map Prod.fst).Nodup := by decide
  obtain ⟨horder, hok, hget, -⟩ := levels_shadow shadowing _ hd
    (.cons (.swap _ _ _) (.cons (.swap _ _ _) .nil))
  obtain ⟨-, hok', -⟩ := levels_shadow unsupported _ hd' (.cons (.refl _) (.cons (.refl _) .nil))
  obtain ⟨s, hs⟩ := hok.mpr (by decide)
  refine ⟨⟨hd, hd'⟩, horder, ⟨s, hs, ?_, ?_, ?_⟩, by cbv, ?_⟩
  · exact hget s hs "a"
  · exact hget s hs "c"
  · exact hget s hs "d"
  · rw [hok']
    decide

end Document

end HdlExpr
