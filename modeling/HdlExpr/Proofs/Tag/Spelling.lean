import Mathlib.Data.List.Induction
import Mathlib.Data.List.Nodup
import Mathlib.Tactic.ByContra
import HdlExpr.Tag.Spelling

/-!
# Which spellings name a tag

Keys are entered for all tags before names are, and a key that several names share is spoiled.  What
is found in the end does not depend on that order: a spelling names the tag that has it as its name,
and otherwise the only tag whose name differs from it in nothing but letter case and separators.
-/

namespace HdlExpr.Tag

open Style (isSeparator)

/-- A text without outer white space, separators and letter case. -/
def normalForm (s : List Char) : List Char :=
  ((Text.trim s).filter (!isSeparator ·)).map Char.toLower

/-! ## Keys -/

private theorem isSeparator_iff {c : Char} :
    isSeparator c = true ↔ c = ' ' ∨ c = '_' ∨ c = '-' ∨ c = '.' := by
  simp [isSeparator]

private theorem isSeparator_of_isJoint {c d : Char} (h : Style.isJoint c d = true) :
    isSeparator c = false := by
  by_contra hc
  rw [Bool.not_eq_false, isSeparator_iff] at hc
  rcases hc with rfl | rfl | rfl | rfl <;> simp [Style.isJoint] at h

private theorem isUpper_iff {c : Char} :
    c.isUpper = true ↔ 'A'.toNat ≤ c.toNat ∧ c.toNat ≤ 'Z'.toNat :=
  decide_eq_true_iff.trans (and_congr UInt32.le_iff_toNat_le UInt32.le_iff_toNat_le)

private theorem isLower_iff {c : Char} :
    c.isLower = true ↔ 'a'.toNat ≤ c.toNat ∧ c.toNat ≤ 'z'.toNat := by
  refine Bool.and_eq_true_iff.trans (and_congr ?_ ?_) <;>
    exact decide_eq_true_iff.trans UInt32.le_iff_toNat_le

private theorem isAlphanum_iff {c : Char} :
    c.isAlphanum = true ↔ (c.isUpper = true ∨ c.isLower = true) ∨ c.isDigit = true :=
  Bool.or_eq_true_iff.trans (or_congr_left Bool.or_eq_true_iff)

/-- A capital letter has a small letter, and every other character stays. -/
private theorem toLower_cases (c : Char) :
    (c.isUpper = true ∧ c.toLower.isLower = true ∧ c.toLower.isUpper = false) ∨
      (c.isUpper = false ∧ c.toLower = c) := by
  rw [← Bool.not_eq_true, ← Bool.not_eq_true, isUpper_iff, isLower_iff, isUpper_iff]
  unfold Char.toLower
  split
  case isTrue h =>
    have hlow : 'A'.toNat ≤ c.toNat := UInt32.le_iff_toNat_le.mp h.1
    have hhigh : c.toNat ≤ 'Z'.toNat := UInt32.le_iff_toNat_le.mp h.2
    left
    simp only [Char.toNat, Char.reduceVal, UInt32.toNat_add, UInt32.reduceSub,
      UInt32.reduceToNat] at hlow hhigh ⊢
    omega
  case isFalse h =>
    exact .inr ⟨mt (and_congr UInt32.le_iff_toNat_le UInt32.le_iff_toNat_le).mpr h, rfl⟩

private theorem toLower_ne_underscore {c : Char} (h : isSeparator c = false) : c.toLower ≠ '_' := by
  intro hc
  obtain ⟨-, hlower, -⟩ | ⟨-, hself⟩ := toLower_cases c
  · rw [hc] at hlower
    exact absurd hlower (by decide)
  · rw [hself] at hc
    subst hc
    exact absurd h (by decide)

/-- Without its marks, the text in small letters with marks is the text without its separators. -/
theorem filter_delimited (before : Option Char) (cs : List Char) :
    (Style.delimited '_' before cs).filter (· != '_') =
      (cs.filter (!isSeparator ·)).map Char.toLower := by
  induction cs generalizing before with
  | nil => rfl
  | cons c cs ih =>
    rw [Style.delimited, List.filter_append, ih, List.filter_cons]
    cases hc : isSeparator c with
    | true =>
      have hjoint (d : Char) : Style.isJoint c d = false := by
        by_contra h
        rw [Bool.not_eq_false] at h
        simp [isSeparator_of_isJoint h] at hc
      cases cs.head? <;> simp [hjoint]
    | false =>
      have hlower : (c.toLower != '_') = true := by simpa using toLower_ne_underscore hc
      cases cs.head? with
      | none => simp [hlower]
      | some d =>
        by_cases hd : Style.isJoint c d
        · simp [hd, hlower, apply_ite (List.filter _)]
        · simp [hd, hlower]

variable {snake : List Char → List Char}

/-- The words in snake case are the normal form, up to marks between them. -/
def Folds (snake : List Char → List Char) : Prop := ∀ s, key snake s = normalForm s

private theorem folds_delimited : Folds (Style.delimited '_' none) :=
  fun _ => filter_delimited none _

private theorem isUpper_of_mem_key (hsnake : Folds snake) {s : List Char} {c : Char}
    (h : c ∈ key snake s) : c.isUpper = false := by
  rw [hsnake] at h
  obtain ⟨d, -, rfl⟩ := List.mem_map.mp h
  obtain ⟨-, -, hupper⟩ | ⟨hupper, hself⟩ := toLower_cases d
  · exact hupper
  · rw [hself]
    exact hupper

private theorem trim_of_forall {cs : List Char} (h : ∀ c ∈ cs, Text.isBlank c = false) :
    Text.trim cs = cs := by
  have hleft {ds : List Char} (hds : ∀ c ∈ ds, Text.isBlank c = false) : Text.trimLeft ds = ds := by
    cases ds with
    | nil => rfl
    | cons d ds => simp [Text.trimLeft, hds d]
  have hreverse : ∀ c ∈ cs.reverse, Text.isBlank c = false := by
    intro c hc
    exact h c (List.mem_reverse.mp hc)
  rw [Text.trim, hleft h, hleft hreverse, List.reverse_reverse]

private theorem not_isBlank_of_isAlphanum {c : Char} (h : c.isAlphanum = true) :
    Text.isBlank c = false := by
  simp only [isAlphanum_iff, isUpper_iff, isLower_iff, Char.isDigit_iff_toNat,
    Char.reduceToNat] at h
  simp only [Text.isBlank, Bool.or_eq_false_iff, Bool.and_eq_false_iff, decide_eq_false_iff_not,
    beq_eq_false_iff_ne]
  omega

private theorem key_of_plain (hsnake : Folds snake) {cs : List Char}
    (h : ∀ c ∈ cs, c.isAlphanum = true ∧ c.isUpper = false) : key snake cs = cs := by
  have htrim : Text.trim cs = cs := by
    apply trim_of_forall
    intro c hc
    exact not_isBlank_of_isAlphanum (h c hc).1
  have hfilter : cs.filter (!isSeparator ·) = cs := by
    apply List.filter_eq_self.mpr
    intro c hc
    by_contra hsep
    rw [Bool.not_eq_true, Bool.not_eq_false', isSeparator_iff] at hsep
    have halnum := (h c hc).1
    rcases hsep with rfl | rfl | rfl | rfl <;> exact absurd halnum (by decide)
  have hlower : cs.map Char.toLower = cs := by
    rw [List.map_congr_left (g := id), List.map_id]
    intro c hc
    obtain ⟨hupper, -⟩ | ⟨-, hself⟩ := toLower_cases c
    · rw [(h c hc).2] at hupper
      cases hupper
    · exact hself
  rw [hsnake, normalForm, htrim, hfilter, hlower]

private theorem mem_of_mem_trim {cs : List Char} {c : Char} (h : c ∈ Text.trim cs) : c ∈ cs := by
  have hdrop {ds : List Char} (hc : c ∈ Text.trimLeft ds) : c ∈ ds :=
    (List.dropWhile_sublist _).subset hc
  exact hdrop (List.mem_reverse.mp (hdrop (List.mem_reverse.mp h)))

private theorem isAlphanum_toLower {c : Char} (h : c.isAlphanum = true) :
    c.toLower.isAlphanum = true := by
  obtain ⟨-, hlower, -⟩ | ⟨-, hself⟩ := toLower_cases c
  · exact isAlphanum_iff.mpr (.inl (.inr hlower))
  · rwa [hself]

/-! ## Names -/

private theorem mem_all {t : Tag} : t ∈ all ↔ t.isValid = true := by
  cases t <;> decide

private theorem nodup_names : (all.map name).Nodup := by decide +kernel

private theorem nodup_all : all.Nodup := .of_map name nodup_names

private theorem names_regular : ∀ t ∈ all,
    (t.name.toList.all fun c => c.isAlphanum || c == '_') = true ∧
      t.name.toList.any Char.isUpper = true := by
  decide +kernel

private theorem name_inj {t u : Tag} (ht : t ∈ all) (hu : u ∈ all) (h : t.name = u.name) : t = u :=
  List.inj_on_of_nodup_map nodup_names ht hu h

/-- Names have capitals and keys have none. -/
theorem name_ne_key (hsnake : Folds snake) {t : Tag} (ht : t ∈ all) (s : List Char) :
    t.name.toList ≠ key snake s := by
  intro h
  obtain ⟨c, hc, hupper⟩ := List.any_eq_true.mp (names_regular t ht).2
  rw [isUpper_of_mem_key hsnake (h ▸ hc)] at hupper
  exact absurd hupper (by decide)

private theorem key_key_name (hsnake : Folds snake) {t : Tag} (ht : t ∈ all) :
    key snake (key snake t.name.toList) = key snake t.name.toList := by
  apply key_of_plain hsnake
  intro c hc
  refine ⟨?_, isUpper_of_mem_key hsnake hc⟩
  rw [hsnake] at hc
  obtain ⟨d, hd, rfl⟩ := List.mem_map.mp hc
  obtain ⟨htrim, hsep⟩ := List.mem_filter.mp hd
  have hregular := List.all_eq_true.mp (names_regular t ht).1 d (mem_of_mem_trim htrim)
  rcases Bool.or_eq_true_iff.mp hregular with h | h
  · exact isAlphanum_toLower h
  · rw [beq_iff_eq.mp h] at hsep
    exact absurd hsep (by decide)

/-! ## The index -/

namespace Index

/-- What a key has once some tags are entered: nothing, the only tag of that key, or, when there are
several, no category. -/
inductive Entered (snake : List Char → List Char) (k : List Char) (ts : List Tag) :
    Option Tag → Prop where
  | unused (h : ∀ t ∈ ts, key snake t.name.toList ≠ k) : Entered snake k ts none
  | own {t : Tag} (ht : t ∈ ts) (hk : key snake t.name.toList = k)
      (h : ∀ u ∈ ts, key snake u.name.toList = k → u = t) : Entered snake k ts (some t)
  | shared {t u : Tag} (ht : t ∈ ts) (hu : u ∈ ts) (hne : t ≠ u) (hk : key snake t.name.toList = k)
      (hk' : key snake u.name.toList = k) : Entered snake k ts (some .invalid)

private theorem lookup_addKey_self (index : Index) (t : Tag) :
    (index.addKey snake t).lookup (key snake t.name.toList) =
      some ((index.lookup (key snake t.name.toList)).elim t
        fun u => if u = t then t else .invalid) := by
  cases hfound : index.lookup (key snake t.name.toList) <;> simp [addKey, hfound]

private theorem lookup_addKey_of_ne (index : Index) {t : Tag} {k : List Char}
    (h : key snake t.name.toList ≠ k) : (index.addKey snake t).lookup k = index.lookup k := by
  have hk : (k == key snake t.name.toList) = false := by simpa using Ne.symm h
  cases hfound : index.lookup (key snake t.name.toList) <;>
    simp [addKey, hfound, List.lookup_cons, hk]

theorem Entered.addKey {index : Index} {ts : List Tag} {t : Tag} {k : List Char}
    (h : Entered snake k ts (index.lookup k)) (ht : t ∉ ts) :
    Entered snake k (ts ++ [t]) ((index.addKey snake t).lookup k) := by
  by_cases hk : key snake t.name.toList = k
  · subst hk
    rw [lookup_addKey_self]
    generalize index.lookup (key snake t.name.toList) = found at h
    cases h with
    | unused hnone =>
      refine .own (by simp) rfl ?_
      intro u hu hkey
      rcases List.mem_append.mp hu with hu | hu
      · exact absurd hkey (hnone u hu)
      · exact List.mem_singleton.mp hu
    | @own u hu hkey _ =>
      have hne : u ≠ t := by
        rintro rfl
        exact ht hu
      simp only [Option.elim, if_neg hne]
      exact .shared (List.mem_append_left _ hu) (by simp) hne hkey rfl
    | @shared u v hu hv hne hkey hkey' =>
      have hinvalid : (if Tag.invalid = t then t else Tag.invalid) = .invalid := by
        split
        · exact Eq.symm ‹_›
        · rfl
      simp only [Option.elim, hinvalid]
      exact .shared (List.mem_append_left _ hu) (List.mem_append_left _ hv) hne hkey hkey'
  · rw [lookup_addKey_of_ne index hk]
    generalize index.lookup k = found at h
    cases h with
    | unused hnone =>
      apply Entered.unused
      simpa [or_imp, forall_and, hk] using hnone
    | own hu hkey honly =>
      refine .own (List.mem_append_left _ hu) hkey ?_
      intro v hv hkv
      rcases List.mem_append.mp hv with hv | hv
      · exact honly v hv hkv
      · rw [List.mem_singleton.mp hv] at hkv
        exact absurd hkv hk
    | shared hu hv hne hkey hkey' =>
      exact .shared (List.mem_append_left _ hu) (List.mem_append_left _ hv) hne hkey hkey'

private theorem entered_addKeys {ts : List Tag} (hnodup : ts.Nodup) (k : List Char) :
    Entered snake k ts ((ts.foldl (addKey snake) []).lookup k) := by
  induction ts using List.reverseRecOn with
  | nil => exact .unused (by simp)
  | append_singleton ts t ih =>
    rw [List.nodup_append_comm, List.singleton_append, List.nodup_cons] at hnodup
    rw [List.foldl_append]
    exact (ih hnodup.2).addKey hnodup.1

private theorem lookup_addNames_of_mem (index : Index) {ts : List Tag}
    (hnodup : (ts.map name).Nodup)
    {t : Tag} (ht : t ∈ ts) : (ts.foldl addName index).lookup t.name.toList = some t := by
  induction ts using List.reverseRecOn with
  | nil => exact absurd ht List.not_mem_nil
  | append_singleton ts u ih =>
    rw [List.map_append, List.nodup_append_comm, List.map_singleton, List.singleton_append,
      List.nodup_cons] at hnodup
    rw [List.foldl_append, List.foldl_cons, List.foldl_nil, addName, List.lookup_cons]
    rcases List.mem_append.mp ht with ht | ht
    · have hne : t.name ≠ u.name := by
        intro h
        exact hnodup.1 (h ▸ List.mem_map_of_mem ht)
      have hbeq : (t.name.toList == u.name.toList) = false := by
        simpa [String.toList_inj] using hne
      rw [hbeq]
      exact ih hnodup.2 ht
    · simp [List.mem_singleton.mp ht]

private theorem lookup_addNames_of_forall_ne (index : Index) {ts : List Tag} {s : List Char}
    (h : ∀ t ∈ ts, t.name.toList ≠ s) : (ts.foldl addName index).lookup s = index.lookup s := by
  induction ts generalizing index with
  | nil => rfl
  | cons t ts ih =>
    have hbeq : (s == t.name.toList) = false := by simpa using (h t (by simp)).symm
    rw [List.foldl_cons, ih _ fun u hu => h u (List.mem_cons_of_mem t hu), addName,
      List.lookup_cons, hbeq]

end Index

private theorem find?_name {t : Tag} (ht : t ∈ all) :
    (index snake).find? t.name.toList = some t := by
  rw [Index.find?, index, Index.lookup_addNames_of_mem _ nodup_names ht]
  simpa using mem_all.mp ht

/-- A text that is no name is found if it is the key of a single name. -/
theorem find?_eq_some_iff {s : List Char} (hs : ∀ t ∈ all, t.name.toList ≠ s) {t : Tag} :
    (index snake).find? s = some t ↔
      t ∈ all ∧ key snake t.name.toList = s ∧ ∀ u ∈ all, key snake u.name.toList = s → u = t := by
  rw [Index.find?, index, Index.lookup_addNames_of_forall_ne _ hs]
  have hentered : Index.Entered snake s all _ := Index.entered_addKeys nodup_all s
  generalize (all.foldl (Index.addKey snake) []).lookup s = found at hentered
  cases hentered with
  | unused hnone =>
    simp only [Option.filter_none, reduceCtorEq, false_iff]
    rintro ⟨ht, hk, -⟩
    exact hnone t ht hk
  | @own u hu hk honly =>
    have hvalid : u.isValid = true := mem_all.mp hu
    simp only [Option.filter_some, hvalid, if_true, Option.some.injEq]
    constructor
    · rintro rfl
      exact ⟨hu, hk, honly⟩
    · rintro ⟨ht, hkt, -⟩
      exact (honly t ht hkt).symm
  | @shared u v hu hv hne hku hkv =>
    simp only [Option.filter_some, show isValid .invalid = false from rfl, Bool.false_eq_true,
      if_false, reduceCtorEq, false_iff]
    rintro ⟨-, -, honly⟩
    exact hne ((honly u hu hku).trans (honly v hv hkv).symm)

/-! ## Spellings -/

private theorem ofSpelling?_name {t : Tag} (ht : t ∈ all) : ofSpelling? t.name snake = some t := by
  rw [ofSpelling?, find?_name ht, Option.some_or]

/-- Of a spelling that is no name only the key counts, although the spelling is looked up first. -/
theorem ofSpelling?_of_forall_ne (hsnake : Folds snake) {s : String}
    (hs : ∀ t ∈ all, t.name ≠ s) :
    ofSpelling? s snake = (index snake).find? (key snake s.toList) := by
  rw [ofSpelling?]
  cases hfound : (index snake).find? s.toList with
  | none => rw [Option.none_or]
  | some t =>
    have hne : ∀ u ∈ all, u.name.toList ≠ s.toList := by
      intro u hu h
      exact hs u hu (String.toList_inj.mp h)
    obtain ⟨ht, hk, -⟩ := (find?_eq_some_iff hne).mp hfound
    have hkey : key snake s.toList = s.toList := by rw [← hk, key_key_name hsnake ht]
    rw [hkey, hfound, Option.some_or]

/-- Whether a spelling means a tag: it is the name of the tag, or it is no other name, it has the
normal form of that name, and no other name has. -/
def Means (s : String) (t : Tag) : Prop :=
  s = t.name ∨
    (∀ u ∈ all, u ≠ t → s ≠ u.name) ∧ normalForm s.toList = normalForm t.name.toList ∧
      ∀ u ∈ all, u ≠ t → normalForm u.name.toList ≠ normalForm t.name.toList

private theorem ofSpelling?_eq_some_iff (hsnake : Folds snake) {s : String} {t : Tag} :
    ofSpelling? s snake = some t ↔ t.isValid = true ∧ Means s t := by
  rw [← mem_all]
  by_cases hs : ∃ u ∈ all, u.name = s
  · obtain ⟨u, hu, rfl⟩ := hs
    rw [ofSpelling?_name hu, Option.some.injEq]
    constructor
    · rintro rfl
      exact ⟨hu, .inl rfl⟩
    · rintro ⟨ht, hname | ⟨hother, -⟩⟩
      · exact name_inj hu ht hname
      · by_contra hne
        exact hother u hu hne rfl
  · have hne : ∀ u ∈ all, u.name ≠ s := by
      intro u hu h
      exact hs ⟨u, hu, h⟩
    rw [ofSpelling?_of_forall_ne hsnake hne, find?_eq_some_iff fun u hu => name_ne_key hsnake hu _]
    simp only [hsnake _, Means]
    constructor
    · rintro ⟨ht, hk, honly⟩
      refine ⟨ht, .inr ⟨fun u hu _ h => hne u hu h.symm, hk.symm, ?_⟩⟩
      intro u hu hut hku
      exact hut (honly u hu (hku.trans hk))
    · rintro ⟨ht, rfl | ⟨-, hk, honly⟩⟩
      · exact absurd rfl (hne t ht)
      · refine ⟨ht, hk.symm, ?_⟩
        intro u hu hku
        by_contra hut
        exact honly u hu hut (hku.trans hk)

/-- A spelling names the tag that it means, and one that means no tag names none, as long as words
in snake case are the normal form up to marks between them; and so they are. -/
theorem spelling_unambiguous :
    Folds (Style.delimited '_' none) ∧
    ∀ snake, Folds snake → ∀ s : String,
      (∀ t, ofSpelling? s snake = some t ↔ t.isValid = true ∧ Means s t) ∧
      (ofSpelling? s snake = none ↔ ∀ t, t.isValid = true → ¬ Means s t) := by
  refine ⟨folds_delimited, fun snake hsnake s => ?_⟩
  refine ⟨fun t => ofSpelling?_eq_some_iff hsnake, ?_⟩
  rw [Option.eq_none_iff_forall_ne_some]
  simp only [ne_eq, ofSpelling?_eq_some_iff hsnake, not_and]

end HdlExpr.Tag
