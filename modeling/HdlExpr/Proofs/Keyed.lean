import Mathlib.Data.List.Nodup
import Mathlib.Data.String.Basic

/-!
# Entries by their keys

A list of entries is a mapping if no two of them give a key different values, in particular if all
keys are different.  What a key has in it, and the entries in the order of their keys, are the same
in whatever order the entries are listed.
-/

namespace HdlExpr.Keyed

variable {β : Type} {entries entries' : List (String × β)}

/-- Entries with the same key have the same value. -/
def Consistent (entries : List (String × β)) : Prop :=
  ∀ p ∈ entries, ∀ q ∈ entries, p.1 = q.1 → p.2 = q.2

theorem consistent_of_nodup (h : (entries.map Prod.fst).Nodup) : Consistent entries := by
  intro p hp q hq hkey
  rw [List.inj_on_of_nodup_map h hp hq hkey]

theorem Consistent.perm (h : Consistent entries) (hperm : entries.Perm entries') :
    Consistent entries' := by
  intro p hp q hq
  exact h p (hperm.mem_iff.mpr hp) q (hperm.mem_iff.mpr hq)

theorem mem_of_lookup {key : String} {v : β} (h : entries.lookup key = some v) :
    (key, v) ∈ entries := by
  obtain ⟨before, after, rfl, -⟩ := List.lookup_eq_some_iff.mp h
  simp

private theorem lookup_eq_some_iff (h : Consistent entries) {key : String} {v : β} :
    entries.lookup key = some v ↔ (key, v) ∈ entries := by
  constructor
  · exact mem_of_lookup
  · intro hmem
    cases hfound : entries.lookup key with
    | none =>
      have hne := List.lookup_eq_none_iff.mp hfound (key, v) hmem
      simp at hne
    | some w => exact congrArg some (h _ (mem_of_lookup hfound) _ hmem rfl)

theorem lookup_perm (hperm : entries.Perm entries') (h : Consistent entries) (key : String) :
    entries.lookup key = entries'.lookup key := by
  apply Option.ext
  intro v
  rw [lookup_eq_some_iff h, lookup_eq_some_iff (h.perm hperm), hperm.mem_iff]

theorem pairwise_mergeSort (entries : List (String × β)) :
    (entries.mergeSort fun a b => decide (a.1 ≤ b.1)).Pairwise (·.1 ≤ ·.1) := by
  have hsorted : (entries.mergeSort fun a b => decide (a.1 ≤ b.1)).Pairwise
      fun a b => decide (a.1 ≤ b.1) = true := by
    apply List.pairwise_mergeSort
    · intro a b c hab hbc
      simp only [decide_eq_true_eq] at hab hbc ⊢
      exact le_trans hab hbc
    · intro a b
      simpa using le_total a.1 b.1
  simpa using hsorted

/-- Only one order of entries is that of their keys. -/
theorem mergeSort_perm (hperm : entries.Perm entries') (h : (entries.map Prod.fst).Nodup) :
    (entries.mergeSort fun a b => decide (a.1 ≤ b.1)) =
      entries'.mergeSort fun a b => decide (a.1 ≤ b.1) := by
  have hsorted : (entries.mergeSort fun a b => decide (a.1 ≤ b.1)).Perm
      (entries'.mergeSort fun a b => decide (a.1 ≤ b.1)) :=
    (List.mergeSort_perm _ _).trans (hperm.trans (List.mergeSort_perm _ _).symm)
  apply hsorted.eq_of_pairwise _ (pairwise_mergeSort entries) (pairwise_mergeSort entries')
  intro a b ha hb hab hba
  have ha' : a ∈ entries := List.mem_mergeSort.mp ha
  have hb' : b ∈ entries := hperm.mem_iff.mpr (List.mem_mergeSort.mp hb)
  exact List.inj_on_of_nodup_map h ha' hb' (le_antisymm hab hba)

end HdlExpr.Keyed
