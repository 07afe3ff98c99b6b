import HdlExpr.Proofs.Form

/-!
# Names

A name goes on over the children of its node up to the first select that can be used.  Selects
without a usable clause are passed over, and so is what is neither a segment nor a select.
-/

namespace HdlExpr.Form

/-- A clause that can be used: a range, or a bit select with an index. -/
def IsClause (t : Tree) (c : NodeId) : Prop :=
  t.tag c = .partSelectRange ∨ t.tag c = .bitSelect ∧ t.children c ≠ []

def IsUsable (t : Tree) (n : NodeId) : Prop :=
  t.tag n = .select ∧ ∃ c ∈ t.children n, IsClause t c

instance (t : Tree) : DecidablePred (IsClause t) := fun c =>
  inferInstanceAs
    (Decidable (t.tag c = .partSelectRange ∨ t.tag c = .bitSelect ∧ t.children c ≠ []))

instance (t : Tree) : DecidablePred (IsUsable t) := fun n =>
  inferInstanceAs (Decidable (t.tag n = .select ∧ ∃ c ∈ t.children n, IsClause t c))

/-- What a clause selects.  Bounds that are missing are node zero. -/
inductive Gives (t : Tree) (c : NodeId) : Select → Prop
  | bit (htag : t.tag c = .bitSelect) (hne : t.children c ≠ []) :
      Gives t c (.bit (nth (t.children c) 0))
  | part (htag : t.tag c = .partSelectRange) (hrange : t.tag (t.child c) = .constantRange) :
      Gives t c (.part (nth (t.children (t.child c)) 0) (nth (t.children (t.child c)) 1))
  | indexed (htag : t.tag c = .partSelectRange) (hrange : t.tag (t.child c) ≠ .constantRange) :
      Gives t c (.indexed (nth (t.children (t.child c)) 0)
        (t.tag (nth (t.children (t.child c)) 1)) (nth (t.children (t.child c)) 2))

section Scan

variable {t : Tree}

private theorem clause?_eq_some_iff {c : NodeId} {select : Select} :
    clause? t c = some select ↔ Gives t c select := by
  constructor
  · intro h
    unfold clause? at h
    split at h
    case h_1 htag =>
      obtain ⟨index, hindex, rfl⟩ := Option.map_eq_some_iff.mp h
      obtain ⟨rest, hc⟩ := List.head?_eq_some_iff.mp hindex
      have hgives : Gives t c (.bit (nth (t.children c) 0)) := .bit htag (by simp [hc])
      simpa [hc, nth] using hgives
    case h_2 htag =>
      dsimp only at h
      split at h
      case isTrue hrange =>
        cases h
        exact .part htag hrange
      case isFalse hrange =>
        cases h
        exact .indexed htag hrange
    case h_3 => cases h
  · intro h
    cases h with
    | bit htag hne =>
      obtain ⟨index, rest, hc⟩ := List.exists_cons_of_ne_nil hne
      simp [clause?, htag, hc, nth]
    | part htag hrange => simp [clause?, htag, hrange]
    | indexed htag hrange => simp [clause?, htag, hrange]

theorem Gives.isClause {c : NodeId} {select : Select} (h : Gives t c select) : IsClause t c := by
  cases h with
  | bit htag hne => exact .inr ⟨htag, hne⟩
  | part htag _ | indexed htag _ => exact .inl htag

theorem IsClause.exists_gives {c : NodeId} (h : IsClause t c) : ∃ select, Gives t c select := by
  rcases h with htag | ⟨htag, hne⟩
  · by_cases hrange : t.tag (t.child c) = .constantRange
    · exact ⟨_, .part htag hrange⟩
    · exact ⟨_, .indexed htag hrange⟩
  · exact ⟨_, .bit htag hne⟩

private theorem clause?_eq_none_iff {c : NodeId} : clause? t c = none ↔ ¬IsClause t c := by
  constructor
  · intro hnone h
    obtain ⟨select, hgives⟩ := h.exists_gives
    rw [← clause?_eq_some_iff, hnone] at hgives
    cases hgives
  · intro h
    by_contra hsome
    obtain ⟨select, hselect⟩ := Option.ne_none_iff_exists'.mp hsome
    exact h (clause?_eq_some_iff.mp hselect).isClause

private theorem select?_eq_some_iff {n : NodeId} {select : Select} :
    select? t n = some select ↔ ∃ before clause after,
      t.children n = before ++ clause :: after ∧ (∀ c ∈ before, ¬IsClause t c) ∧
        Gives t clause select := by
  rw [select?, List.findSome?_eq_some_iff]
  constructor
  · rintro ⟨before, clause, after, hc, hgives, hbefore⟩
    exact ⟨before, clause, after, hc, fun c hm => clause?_eq_none_iff.mp (hbefore c hm),
      clause?_eq_some_iff.mp hgives⟩
  · rintro ⟨before, clause, after, hc, hbefore, hgives⟩
    exact ⟨before, clause, after, hc, clause?_eq_some_iff.mpr hgives,
      fun c hm => clause?_eq_none_iff.mpr (hbefore c hm)⟩

private theorem isUsable_iff {n : NodeId} :
    IsUsable t n ↔ t.tag n = .select ∧ ∃ select, select? t n = some select := by
  refine and_congr_right fun _ => ?_
  rw [← Option.isSome_iff_exists, select?, List.findSome?_isSome_iff]
  refine exists_congr fun c => and_congr_right fun _ => ?_
  rw [← not_iff_not, ← clause?_eq_none_iff, Option.not_isSome_iff_eq_none]

/-- Where the first usable select stands, or the end. -/
def usableAt (t : Tree) (ns : List NodeId) : Nat := ns.findIdx fun n => IsUsable t n

private theorem usableAt_cons_of_pos {n : NodeId} (h : IsUsable t n) (ns : List NodeId) :
    usableAt t (n :: ns) = 0 := by
  simp [usableAt, List.findIdx_cons, h]

private theorem usableAt_cons_of_neg {n : NodeId} (h : ¬IsUsable t n) (ns : List NodeId) :
    usableAt t (n :: ns) = usableAt t ns + 1 := by
  simp [usableAt, List.findIdx_cons, h]

/-- The texts of those nodes that are segments of a name. -/
def segmentTexts (t : Tree) (ns : List NodeId) : List String :=
  (ns.filter fun n => t.tag n = .stringConst).map t.symbol

private theorem segments_eq (t : Tree) (ns : List NodeId) :
    segments t ns = (segmentTexts t (ns.take (usableAt t ns)),
      ((ns[usableAt t ns]?).bind (select? t)).getD .none) := by
  induction ns with
  | nil => rfl
  | cons n ns ih =>
    by_cases hu : IsUsable t n
    · obtain ⟨htag, select, hselect⟩ := isUsable_iff.mp hu
      rw [usableAt_cons_of_pos hu]
      simp [segments, htag, hselect, segmentTexts]
    · rw [usableAt_cons_of_neg hu, List.take_succ_cons, List.getElem?_cons_succ]
      unfold segments
      split
      case h_1 htag => simp [ih, segmentTexts, htag]
      case h_2 htag =>
        -- The select is no usable one, so the scan goes on behind it.
        have hnone : select? t n = none := by
          by_contra hsome
          exact hu (isUsable_iff.mpr ⟨htag, Option.ne_none_iff_exists'.mp hsome⟩)
        simp [hnone, ih, segmentTexts, htag]
      case h_3 hname _ =>
        have hother : t.tag n ≠ .stringConst := hname
        simp [ih, segmentTexts, hother]

private theorem decode_name (h : t.Linked) {n : NodeId}
    (hfirst : t.tag (t.child n) = .stringConst) : ∃ rest, t.children n = t.child n :: rest ∧
      decode t n = ⟨n, t.child n, .name (ident t (t.child n) rest)⟩ := by
  have hvalid : t.tag (t.child n) ≠ .invalid := by simp [hfirst]
  obtain ⟨rest, hc⟩ := exists_children h hvalid
  have hskip : isSkipped t (t.child n) rest = false := by
    simp [isSkipped, hfirst, Tag.isWrapper, Tag.isOperandChain]
  have hcontent : content t (t.child n) rest = (t.child n, .name (ident t (t.child n) rest)) := by
    simp [content, hfirst, Tag.isOperandChain, Tag.unaryOp?, Tag.isLiteral, Tag.scalarBit?]
  refine ⟨rest, hc, ?_⟩
  rw [decode_content hc hskip, hcontent]

/-- A segment is no select, so a scan of all children finds what one behind the first finds. -/
theorem ident_eq {first : NodeId} (hfirst : t.tag first = .stringConst) (rest : List NodeId) :
    let cs := first :: rest
    ident t first rest = ⟨segmentTexts t (cs.take (usableAt t cs)),
      ((cs[usableAt t cs]?).bind (select? t)).getD .none⟩ := by
  have hu : ¬IsUsable t first := by simp [IsUsable, hfirst]
  dsimp only
  rw [usableAt_cons_of_neg hu, List.take_succ_cons, List.getElem?_cons_succ, ident, segments_eq]
  simp [segmentTexts, hfirst]

end Scan

/-- A name takes the first usable select.  Its segments are those among the children before that
select, or among all of them when there is none; the first child is the first segment.  Of the
select the first usable clause counts. -/
theorem name_takes_first_select {t : Tree} (h : t.Built) {n : NodeId}
    (hfirst : t.tag (t.child n) = .stringConst) :
    let cs := t.children n
    let j := cs.findIdx fun c => IsUsable t c
    ∃ ident, decode t n = ⟨n, t.child n, .name ident⟩ ∧
      ident.segments = ((cs.take j).filter fun c => t.tag c = .stringConst).map t.symbol ∧
      ident.segments.head? = some (t.symbol (t.child n)) ∧
      ident.name.toList = ['.'].intercalate (ident.segments.map String.toList) ∧
      (∀ select, cs[j]? = some select → ∃ before clause after,
        t.children select = before ++ clause :: after ∧ (∀ c ∈ before, ¬IsClause t c) ∧
          IsClause t clause ∧ Gives t clause ident.select) ∧
      ((∀ c ∈ cs, ¬IsUsable t c) → ident.select = .none) := by
  intro cs j
  obtain ⟨rest, hcs, hform⟩ := decode_name h.linked hfirst
  have hident := ident_eq hfirst rest
  rw [← hcs] at hident
  refine ⟨_, hform, ?_, ?_, ?_, ?_, ?_⟩
  · rw [hident]
    rfl
  · rfl
  · rw [Ident.name, String.toList_intercalate]
    rfl
  · intro select hselect
    have husable : IsUsable t select := by
      obtain ⟨hj, rfl⟩ := List.getElem?_eq_some_iff.mp hselect
      simpa using List.findIdx_getElem (w := hj)
    obtain ⟨-, found, hfound⟩ := isUsable_iff.mp husable
    obtain ⟨before, clause, after, hc, hbefore, hgives⟩ := select?_eq_some_iff.mp hfound
    refine ⟨before, clause, after, hc, hbefore, hgives.isClause, ?_⟩
    have hj : (t.children n)[usableAt t (t.children n)]? = some select := hselect
    rw [hident, hj]
    simpa [hfound] using hgives
  · intro hnone
    have hj : j = cs.length := List.findIdx_eq_length.mpr fun c hc => by simpa using hnone c hc
    have hend : (t.children n)[usableAt t (t.children n)]? = none :=
      List.getElem?_eq_none_iff.mpr (Nat.le_of_eq hj.symm)
    rw [hident, hend]
    rfl

/-- At node 15, the name `a.b` with the bounds of nodes 6 and 7, though a select without an index
stands before `b`, and `c` with another select behind the one that counts. -/
def mixedSelects : Tree :=
  let t : Tree := ⟨"a.sv", #[]⟩
  let t := ((t.leaf .stringConst "a").2.leaf .bitSelect "").2
  let t := ((t.node .select [2]).tree.leaf .stringConst "b").2
  let t := ((t.leaf .bitSelect "").2.leaf .intConst "7").2
  let t := ((t.leaf .intConst "0").2.node .constantRange [6, 7]).tree
  let t := ((t.node .partSelectRange [8]).tree.node .select [5, 9]).tree
  let t := ((t.leaf .stringConst "c").2.leaf .intConst "3").2
  let t := ((t.node .bitSelect [12]).tree.node .select [13]).tree
  (t.node .primary [1, 3, 4, 10, 11, 14]).tree

theorem name_takes_first_select_mixedSelects :
    mixedSelects.Built ∧ mixedSelects.tag (mixedSelects.child 15) = .stringConst ∧
      decode mixedSelects 15 = ⟨15, 1, .name ⟨["a", "b"], .part 6 7⟩⟩ ∧
      segmentTexts mixedSelects [1, 3, 4] = ["a", "b"] ∧
      ¬IsUsable mixedSelects 3 ∧ ¬IsClause mixedSelects 5 ∧ Gives mixedSelects 9 (.part 6 7) := by
  have hbuilt : mixedSelects.Built :=
    .node (.node (.node (.leaf (.leaf (.node (.node (.node (.leaf (.leaf (.leaf (.leaf (.node (.leaf
      (.leaf (.empty _) _ _) _ _) _ _) _ _) _ _) _ _) _ _) _ _) _ _) _ _) _ _) _ _) _ _) _ _) _ _
  have hfirst : mixedSelects.tag (mixedSelects.child 15) = .stringConst := by decide
  have hvalue : decode mixedSelects 15 = ⟨15, 1, .name ⟨["a", "b"], .part 6 7⟩⟩ := by
    decide +kernel
  obtain ⟨ident, hform, hsegments, -, -, hselect, -⟩ := name_takes_first_select hbuilt hfirst
  obtain ⟨-, rfl⟩ : mixedSelects.child 15 = 1 ∧ ident = ⟨["a", "b"], .part 6 7⟩ := by
    simpa using hform.symm.trans hvalue
  have hplace : (mixedSelects.children 15).findIdx (fun c => IsUsable mixedSelects c) = 3 := by
    decide +kernel
  rw [hplace] at hsegments hselect
  have hfront : (mixedSelects.children 15).take 3 = [1, 3, 4] := by decide
  rw [hfront] at hsegments
  obtain ⟨before, clause, after, hc, -, hclause, hgives⟩ := hselect 10 (by decide)
  have hclauses : mixedSelects.children 10 = [5, 9] := by decide
  have hempty : ¬IsClause mixedSelects 5 := by decide
  rw [hclauses] at hc
  -- The first of the two clauses has no index, so the range is the one that counts.
  obtain rfl : clause = 9 := by
    rcases before with _ | ⟨_, _ | ⟨_, before⟩⟩
    · obtain rfl : 5 = clause := (List.cons.inj hc).1
      exact absurd hclause hempty
    · exact ((List.cons.inj (List.cons.inj hc).2).1).symm
    · simp at hc
  exact ⟨hbuilt, hfirst, hvalue, hsegments.symm, by decide, hempty, hgives⟩

end HdlExpr.Form
