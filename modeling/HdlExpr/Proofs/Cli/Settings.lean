import Mathlib.Data.String.Basic
import Mathlib.Tactic.TFAE
import HdlExpr.Cli.Config
import HdlExpr.Proofs.Keyed
import HdlExpr.Proofs.Yaml.Keys

/-!
# Settings from nested mappings

A mapping has no order, so its entries may be read in any order, and so may those of the mappings
inside it.  Whatever the order is, the same settings are made.  The last one that is made for a key
counts; hence the order is seen exactly if two settings meet at one key and differ.
-/

namespace HdlExpr

namespace Plain

/-- Induction from the entries of a mapping to the mapping; all other data are leaves. -/
@[elab_as_elim]
theorem entriesInduction {motive : Plain → Prop}
    (leaf : ∀ v, (∀ entries, v ≠ .map entries) → motive v)
    (map : ∀ entries, (∀ e ∈ entries, motive e.2) → motive (.map entries)) (v : Plain) :
    motive v := by
  match v with
  | .map entries =>
    apply map
    intro e he
    have hsize := List.sizeOf_lt_of_mem he
    exact entriesInduction leaf map e.2
  | .null | .bool _ | .int _ | .uint _ | .real _ | .text _ | .list _ =>
    apply leaf
    simp
termination_by sizeOf v
decreasing_by
  cases e
  simp_all
  omega

/-- Data in which the entries of some mappings are listed in another order. -/
inductive Reordered : Plain → Plain → Prop where
  | refl (v : Plain) : Reordered v v
  | trans {u v w : Plain} (h : Reordered u v) (h' : Reordered v w) : Reordered u w
  | entries {entries entries' : List (String × Plain)} (h : entries.Perm entries') :
      Reordered (.map entries) (.map entries')
  | value (before : List (String × Plain)) (key : String) {v v' : Plain}
      (after : List (String × Plain)) (h : Reordered v v') :
      Reordered (.map (before ++ (key, v) :: after)) (.map (before ++ (key, v') :: after))
  | item (before : List Plain) {v v' : Plain} (after : List Plain) (h : Reordered v v') :
      Reordered (.list (before ++ v :: after)) (.list (before ++ v' :: after))

theorem Reordered.distinct {v v' : Plain} (h : Reordered v v') (hv : v.Distinct) :
    v'.Distinct := by
  induction h with
  | refl v => exact hv
  | trans _ _ ih ih' => exact ih' (ih hv)
  | entries hperm =>
    cases hv with
    | map hkeys hvalues =>
      refine .map ((hperm.map Prod.fst).nodup_iff.mp hkeys) ?_
      intro e he
      exact hvalues e (hperm.mem_iff.mpr he)
  | value before key after _ ih =>
    cases hv with
    | map hkeys hvalues =>
      refine .map (by simpa using hkeys) ?_
      intro e he
      rcases List.mem_append.mp he with he | he
      · exact hvalues e (List.mem_append_left _ he)
      · rcases List.mem_cons.mp he with rfl | he
        · exact ih (hvalues (key, _) (by simp))
        · exact hvalues e (by simp [he])
  | item before after _ ih =>
    cases hv with
    | list hitems =>
      apply Distinct.list
      intro v hv
      rcases List.mem_append.mp hv with hv | hv
      · exact hitems v (List.mem_append_left _ hv)
      · rcases List.mem_cons.mp hv with rfl | hv
        · exact ih (hitems _ (by simp))
        · exact hitems v (by simp [hv])

end Plain

namespace Cli.Config

private theorem distinct_of_mapping? {text : String} {entries : List (String × Plain)}
    (h : mapping? text = some entries) : (Plain.map entries).Distinct := by
  unfold mapping? at h
  split at h
  · next n hread =>
    obtain ⟨fields, hfields, rfl⟩ := Option.map_eq_some_iff.mp h
    obtain ⟨hkeys, hvalues⟩ := (Yaml.Node.proper_of_read hread).fields hfields
    refine .map ?_ ?_
    · rw [List.map_map]
      exact hkeys
    · intro e he
      obtain ⟨field, hfield, rfl⟩ := List.mem_map.mp he
      exact (hvalues field hfield).distinct
  · cases h

/-! ## Texts -/

@[simp] private theorem innerTexts_eq_map (items : List Plain) :
    innerTexts items = items.map innerText := by
  induction items with
  | nil => rfl
  | cons v items ih => rw [innerTexts, ih, List.map_cons]

@[simp] private theorem entryTexts_eq_map (entries : List (String × Plain)) :
    entryTexts entries = entries.map fun e => (e.1, innerText e.2) := by
  induction entries with
  | nil => rfl
  | cons e entries ih =>
    obtain ⟨key, v⟩ := e
    rw [entryTexts, entryText, ih, List.map_cons]

/-- Mappings inside of lists are written in the order of their keys. -/
theorem innerText_reordered {v v' : Plain} (h : v.Reordered v') (hv : v.Distinct) :
    innerText v = innerText v' := by
  induction h with
  | refl v => rfl
  | trans h _ ih ih' => exact (ih hv).trans (ih' (h.distinct hv))
  | entries hperm =>
    cases hv with
    | map hkeys hvalues =>
      rw [innerText, innerText, entryTexts_eq_map, entryTexts_eq_map,
        Keyed.mergeSort_perm (hperm.map _)]
      rwa [List.map_map]
  | value before key after _ ih =>
    cases hv with
    | map hkeys hvalues =>
      have hvalue := ih (hvalues (key, _) (by simp))
      rw [innerText, innerText, entryTexts_eq_map, entryTexts_eq_map]
      simp only [List.map_append, List.map_cons, hvalue]
  | item before after _ ih =>
    cases hv with
    | list hitems =>
      have hitem := ih (hitems _ (by simp))
      rw [innerText, innerText, innerTexts_eq_map, innerTexts_eq_map]
      simp only [List.map_append, List.map_cons, hitem]

private theorem scalarText_reordered {v v' : Plain} (h : v.Reordered v') (hv : v.Distinct) :
    scalarText v = scalarText v' := by
  induction h with
  | refl v => rfl
  | trans h _ ih ih' => exact (ih hv).trans (ih' (h.distinct hv))
  | entries hperm => exact innerText_reordered (.entries hperm) hv
  | value before key after h _ => exact innerText_reordered (.value before key after h) hv
  | item before after h _ => exact innerText_reordered (.item before after h) hv

/-! ## Settings -/

private theorem flatten_eq_flatMap (parent : String) (entries : List (String × Plain)) :
    flatten parent entries = entries.flatMap (flattenEntry parent) := by
  induction entries with
  | nil => rw [flatten, List.flatMap_nil]
  | cons e entries ih => rw [flatten, ih, List.flatMap_cons]

@[simp] private theorem flattenEntry_map (parent key : String) (entries : List (String × Plain)) :
    flattenEntry parent (key, .map entries) = flatten (joined parent key) entries := by
  rw [flattenEntry]

private theorem flattenEntry_list (parent key : String) (items : List Plain) :
    flattenEntry parent (key, .list items) =
      [(joined parent key, .text (",".intercalate (items.map scalarText)))] := by
  rw [flattenEntry]

/-- The value that is set by data that are no mapping. -/
def setting? : Plain → Option Plain
  | .map _ | .null => none
  | .list items => some (.text (",".intercalate (items.map scalarText)))
  | .bool b => some (.bool b)
  | v => some (.text (scalarText v))

private theorem flattenEntry_leaf {v : Plain} (hv : ∀ entries, v ≠ .map entries)
    (parent key : String) : flattenEntry parent (key, v) =
      ((setting? v).map fun w => (joined parent key, w)).toList := by
  cases v with
  | map entries => exact absurd rfl (hv entries)
  | null | list _ | bool _ | int _ | uint _ | real _ | text _ => simp [flattenEntry, setting?]

private theorem flattenEntry_reordered {v v' : Plain} (h : v.Reordered v') (hv : v.Distinct)
    (parent key : String) :
    (flattenEntry parent (key, v)).Perm (flattenEntry parent (key, v')) := by
  induction h generalizing parent key with
  | refl v => exact .refl _
  | trans h _ ih ih' => exact (ih hv parent key).trans (ih' (h.distinct hv) parent key)
  | entries hperm =>
    rw [flattenEntry_map, flattenEntry_map, flatten_eq_flatMap, flatten_eq_flatMap]
    exact hperm.flatMap_right _
  | value before key' after _ ih =>
    cases hv with
    | map hkeys hvalues =>
      rw [flattenEntry_map, flattenEntry_map, flatten_eq_flatMap, flatten_eq_flatMap]
      simp only [List.flatMap_append, List.flatMap_cons]
      apply List.Perm.append_left
      apply List.Perm.append_right
      exact ih (hvalues (key', _) (by simp)) _ _
  | item before after h _ =>
    cases hv with
    | list hitems =>
      have hitem := scalarText_reordered h (hitems _ (by simp))
      rw [flattenEntry_list, flattenEntry_list]
      simp only [List.map_append, List.map_cons, hitem]
      exact .refl _

private theorem lookup_ofMapping_reordered {entries entries' : List (String × Plain)}
    (hdistinct : (Plain.map entries).Distinct)
    (hcons : Keyed.Consistent (flatten "" entries))
    (h : (Plain.map entries).Reordered (.map entries')) (key : String) :
    (ofMapping entries').lookup key = (ofMapping entries).lookup key := by
  -- a mapping is an entry with the empty key
  have hperm := flattenEntry_reordered h hdistinct "" ""
  rw [flattenEntry_map, flattenEntry_map] at hperm
  have hrev : (ofMapping entries).Perm (ofMapping entries') := by
    rw [ofMapping, ofMapping]
    exact (List.reverse_perm _).trans (hperm.trans (List.reverse_perm _).symm)
  exact (Keyed.lookup_perm hrev (hcons.perm (List.reverse_perm _).symm) key).symm

/-! ## The setting that is made last -/

private theorem flatten_last {entries : List (String × Plain)} {parent : String}
    {p : String × Plain} (hvalues : ∀ e ∈ entries, p ∈ flattenEntry parent e →
      ∃ v' made, e.2.Reordered v' ∧ flattenEntry parent (e.1, v') = made ++ [p])
    (hp : p ∈ flatten parent entries) :
    ∃ entries' made, (Plain.map entries).Reordered (.map entries') ∧
      flatten parent entries' = made ++ [p] := by
  rw [flatten_eq_flatMap] at hp
  obtain ⟨e, he, hp⟩ := List.mem_flatMap.mp hp
  obtain ⟨v', made, hv', hmade⟩ := hvalues e he hp
  obtain ⟨before, after, rfl⟩ := List.append_of_mem he
  -- the entry of the setting goes to the end
  have hmoved : (before ++ e :: after).Perm ((before ++ after) ++ e :: []) :=
    List.perm_middle.trans (List.perm_append_singleton e (before ++ after)).symm
  refine ⟨(before ++ after) ++ (e.1, v') :: [], flatten parent (before ++ after) ++ made,
    (Plain.Reordered.entries hmoved).trans (.value (before ++ after) e.1 [] hv'), ?_⟩
  rw [flatten_eq_flatMap, flatten_eq_flatMap, List.flatMap_append, List.flatMap_cons, hmade,
    List.flatMap_nil, List.append_nil, List.append_assoc]

/-- Each setting of an entry is the last one in some order. -/
theorem flattenEntry_last (v : Plain) (parent key : String) {p : String × Plain}
    (hp : p ∈ flattenEntry parent (key, v)) :
    ∃ v' made, v.Reordered v' ∧ flattenEntry parent (key, v') = made ++ [p] := by
  induction v using Plain.entriesInduction generalizing parent key with
  | leaf v hv =>
    refine ⟨v, [], .refl v, ?_⟩
    rw [flattenEntry_leaf hv] at hp ⊢
    rw [Option.mem_toList.mp hp, Option.toList_some, List.nil_append]
  | map entries ih =>
    rw [flattenEntry_map] at hp
    obtain ⟨entries', made, h, hmade⟩ := flatten_last (fun e he => ih e he _ e.1) hp
    exact ⟨.map entries', made, h, by rw [flattenEntry_map, hmade]⟩

@[simp] private theorem hyphenated_append (a b : String) :
    hyphenated (a ++ b) = hyphenated a ++ hyphenated b := by
  simp [hyphenated, String.ofList_append]

private theorem hyphenated_hyphenated (a : String) : hyphenated (hyphenated a) = hyphenated a := by
  simp only [hyphenated, String.toList_ofList, List.map_map]
  congr 2
  funext c
  by_cases hc : c = '_' <;> simp [hc]

private theorem hyphenated_joined {parent : String} (h : hyphenated parent = parent)
    (key : String) : hyphenated (joined parent key) = joined parent key := by
  rw [joined]
  split
  · exact hyphenated_hyphenated key
  · rw [hyphenated_append, hyphenated_append, h, hyphenated_hyphenated]
    rfl

private theorem hyphenated_of_mem (v : Plain) {parent key : String} (h : hyphenated parent = parent)
    {p : String × Plain} (hp : p ∈ flattenEntry parent (key, v)) : hyphenated p.1 = p.1 := by
  induction v using Plain.entriesInduction generalizing parent key with
  | leaf v hv =>
    rw [flattenEntry_leaf hv] at hp
    obtain ⟨w, -, rfl⟩ := Option.map_eq_some_iff.mp (Option.mem_toList.mp hp)
    exact hyphenated_joined h key
  | map entries ih =>
    rw [flattenEntry_map, flatten_eq_flatMap] at hp
    obtain ⟨e, he, hp⟩ := List.mem_flatMap.mp hp
    exact ih e he (hyphenated_joined h key) hp

/-- Every setting that a mapping makes is the one that counts, in some order. -/
theorem exists_find?_ofMapping {entries : List (String × Plain)} {p : String × Plain}
    (hp : p ∈ flatten "" entries) :
    ∃ entries', (Plain.map entries).Reordered (.map entries') ∧
      (ofMapping entries').find? p.1 = some p.2 := by
  have hhyphens : hyphenated p.1 = p.1 := by
    rw [flatten_eq_flatMap] at hp
    obtain ⟨e, -, hp⟩ := List.mem_flatMap.mp hp
    exact hyphenated_of_mem e.2 rfl hp
  obtain ⟨entries', made, h, hmade⟩ := flatten_last (fun e _ => flattenEntry_last e.2 "" e.1) hp
  refine ⟨entries', h, ?_⟩
  rw [find?, hhyphens, ofMapping, hmade, List.reverse_append]
  exact List.lookup_cons_self

/-! ## Spellings -/

private theorem flattenEntry_congr {parent parent' key key' : String}
    (h : joined parent key = joined parent' key') (v : Plain) :
    flattenEntry parent (key, v) = flattenEntry parent' (key', v) := by
  by_cases hv : ∃ entries, v = .map entries
  · obtain ⟨entries, rfl⟩ := hv
    rw [flattenEntry_map, flattenEntry_map, h]
  · have hleaf : ∀ entries, v ≠ .map entries := by simpa using hv
    rw [flattenEntry_leaf hleaf, flattenEntry_leaf hleaf, h]

private theorem joined_joined (parent : String) {outer : String} (houter : outer ≠ "")
    (inner : String) :
    joined (joined parent outer) inner = joined parent (outer ++ "-" ++ inner) := by
  have hne : joined parent outer ≠ "" := by
    rw [joined]
    split
    · intro h
      apply houter
      simpa [hyphenated] using congrArg String.toList h
    · intro h
      simpa using congrArg String.toList h
  have hhyphen : hyphenated "-" = "-" := rfl
  rw [joined, if_neg hne, joined, joined, hyphenated_append, hyphenated_append, hhyphen]
  split
  · rfl
  · simp only [String.append_assoc]

/-- A key may be split at a hyphen, with the rest of it in a mapping. -/
theorem flattenEntry_nested (parent : String) {outer : String} (houter : outer ≠ "")
    (inner : String) (v : Plain) :
    flattenEntry parent (outer, .map [(inner, v)]) =
      flattenEntry parent (outer ++ "-" ++ inner, v) := by
  rw [flattenEntry_map, flatten, flatten, List.append_nil]
  exact flattenEntry_congr (joined_joined parent houter inner) v

private theorem flatten_congr {parent : String} {e e' : String × Plain}
    (h : flattenEntry parent e = flattenEntry parent e') (before after : List (String × Plain)) :
    flatten parent (before ++ e :: after) = flatten parent (before ++ e' :: after) := by
  simp only [flatten_eq_flatMap, List.flatMap_append, List.flatMap_cons, h]

/-! ## Order -/

/-- The settings of a mapping do not depend on the order of entries, at any depth, exactly if those
that meet at one key agree.  Spellings of one key can be exchanged for each other. -/
theorem settings_order_tfae (entries : List (String × Plain))
    (hdistinct : (Plain.map entries).Distinct) :
    (∀ text read, mapping? text = some read → (Plain.map read).Distinct) ∧
    [Keyed.Consistent (flatten "" entries),
      ∀ entries₁ entries₂, (Plain.map entries).Reordered (.map entries₁) →
        (Plain.map entries).Reordered (.map entries₂) →
        ∀ key, (ofMapping entries₁).lookup key = (ofMapping entries₂).lookup key,
      ∀ entries₁ entries₂, (Plain.map entries).Reordered (.map entries₁) →
        (Plain.map entries).Reordered (.map entries₂) →
        ∀ flag, (ofMapping entries₁).find? flag = (ofMapping entries₂).find? flag].TFAE ∧
    (∀ parent before key key' v after, hyphenated key = hyphenated key' →
      flatten parent (before ++ (key, v) :: after) =
        flatten parent (before ++ (key', v) :: after)) ∧
    (∀ parent before outer inner v after, outer ≠ "" →
      flatten parent (before ++ (outer, .map [(inner, v)]) :: after) =
        flatten parent (before ++ (outer ++ "-" ++ inner, v) :: after)) := by
  refine ⟨fun _ _ => distinct_of_mapping?, ?_, ?_, ?_⟩
  · tfae_have 1 → 2 := by
      intro hcons entries₁ entries₂ h₁ h₂ key
      rw [lookup_ofMapping_reordered hdistinct hcons h₁,
        lookup_ofMapping_reordered hdistinct hcons h₂]
    tfae_have 2 → 3 := by
      intro h entries₁ entries₂ h₁ h₂ flag
      exact h entries₁ entries₂ h₁ h₂ (hyphenated flag)
    tfae_have 3 → 1 := by
      intro h p hp q hq hkey
      obtain ⟨entries₁, h₁, hlast₁⟩ := exists_find?_ofMapping hp
      obtain ⟨entries₂, h₂, hlast₂⟩ := exists_find?_ofMapping hq
      have hfind := h entries₁ entries₂ h₁ h₂ p.1
      rw [hlast₁, hkey, hlast₂] at hfind
      exact Option.some.inj hfind
    tfae_finish
  · intro parent before key key' v after hkey
    apply flatten_congr
    apply flattenEntry_congr
    rw [joined, joined, hkey]
  · intro parent before outer inner v after houter
    apply flatten_congr
    exact flattenEntry_nested parent houter inner v

/-- A flag in two spellings that agree. -/
def agreeing : List (String × Plain) :=
  [("log", .map [("level", .text "debug"), ("time-layout", .text "none")]),
    ("log_level", .text "debug")]

theorem settings_order_tfae_agreeing :
    (Plain.map agreeing).Distinct ∧ Keyed.Consistent (flatten "" agreeing) ∧
      ∀ entries, (Plain.map agreeing).Reordered (.map entries) →
        (ofMapping entries).find? "log-level" = some (.text "debug") := by
  have hdistinct : (Plain.map agreeing).Distinct := by
    simp [agreeing, Plain.distinct_map_iff, Plain.Distinct.text]
  have hflat : flatten "" agreeing =
      [("log-level", .text "debug"), ("log-time-layout", .text "none"),
        ("log-level", .text "debug")] := by cbv
  have hcons : Keyed.Consistent (flatten "" agreeing) := by
    simp [hflat, Keyed.Consistent]
  refine ⟨hdistinct, hcons, ?_⟩
  intro entries h
  have hsame := ((settings_order_tfae agreeing hdistinct).2.1.out 0 2).mp hcons
  rw [hsame entries agreeing h (.refl _), find?, ofMapping, hflat]
  rfl

/-- A flag in two spellings that do not agree. -/
def conflicting : List (String × Plain) :=
  [("log-level", .text "debug"), ("log", .map [("level", .text "info")])]

theorem find?_conflicting :
    (Plain.map conflicting).Distinct ∧
    (Plain.map conflicting).Reordered (.map conflicting.reverse) ∧
    (ofMapping conflicting).find? "log-level" = some (.text "info") ∧
    (ofMapping conflicting.reverse).find? "log-level" = some (.text "debug") := by
  have hflat : flatten "" conflicting =
      [("log-level", .text "debug"), ("log-level", .text "info")] := by cbv
  have hflat' : flatten "" conflicting.reverse =
      [("log-level", .text "info"), ("log-level", .text "debug")] := by cbv
  refine ⟨?_, .entries (List.reverse_perm _).symm, ?_, ?_⟩
  · simp [conflicting, Plain.distinct_map_iff, Plain.Distinct.text]
  · rw [find?, ofMapping, hflat]
    rfl
  · rw [find?, ofMapping, hflat']
    rfl

end Cli.Config

end HdlExpr
