import Mathlib.Data.List.Forall2
import HdlExpr.Log.Handler
import HdlExpr.Proofs.Log.Fields

/-!
# Handlers that share arrays

Handlers that were derived from each other may look into one array.  A slice without room is never
written behind, so arrays only ever get more in number, and what a handler sees stays what was added
to it.  Whatever is derived or written later, it writes what a logger writes with these additions
alone.
-/

namespace HdlExpr

/-! ## Slices -/

namespace Slice

variable {α : Type} {s : Slice} {m m' : List (List α)}

/-- The array of a slice is as long as the slice. -/
def Valid (s : Slice) (m : List (List α)) : Prop := s.length ≤ ((m[s.array]?).getD []).length

private theorem valid_nil (m : List (List α)) : Valid {} m := Nat.zero_le _

theorem Valid.cells_eq (h : s.Valid m) (hp : m <+: m') (hs : s.length ≠ 0) :
    m'[s.array]? = m[s.array]? := by
  obtain ⟨more, rfl⟩ := hp
  cases hcells : m[s.array]? with
  | none => simp [Valid, hcells, hs] at h
  | some cells =>
    have hlt := (List.getElem?_eq_some_iff.mp hcells).1
    rw [List.getElem?_append_left hlt, hcells]

/-- Arrays that come to others change nothing of what is seen. -/
theorem Valid.kept (h : s.Valid m) (hp : m <+: m') : s.Valid m' ∧ s.read m' = s.read m := by
  by_cases hs : s.length = 0
  · simp [Valid, read, hs]
  · rw [Valid, read, h.cells_eq hp hs]
    exact ⟨h, rfl⟩

/-- Where there is no room, elements go to a new array. -/
theorem Valid.append_clip (h : s.Valid m) (grow : Nat → Nat) (xs : List α) :
    m <+: (s.clip.append grow m xs).2 ∧
      (s.clip.append grow m xs).1.Valid (s.clip.append grow m xs).2 ∧
      (s.clip.append grow m xs).1.read (s.clip.append grow m xs).2 = s.read m ++ xs := by
  have hread : s.clip.read m = s.read m := rfl
  have hlength : (s.read m).length = s.length := by
    rw [read, List.length_take]
    exact Nat.min_eq_left h
  by_cases hxs : xs = []
  · have hsame : s.clip.append grow m xs = (s.clip, m) := by
      subst hxs
      simp only [append, clip, List.length_nil, Nat.add_zero, Nat.le_refl, if_true, List.append_nil,
        List.take_append_drop, Prod.mk.injEq, true_and]
      exact List.modify_id ..
    rw [hsame, hxs, List.append_nil]
    exact ⟨List.prefix_rfl, h, hread⟩
  · have hroom : ¬s.length + xs.length ≤ s.length := by
      have hpos := List.length_pos_iff.mpr hxs
      omega
    have happend : s.clip.append grow m xs =
        (⟨m.length, s.length + xs.length, max (s.length + xs.length) (grow (s.length + xs.length))⟩,
          m ++ [s.read m ++ xs]) := if_neg hroom
    rw [happend]
    refine ⟨List.prefix_append _ _, ?_, ?_⟩
    · simp [Valid, hlength]
    · have hfull : (s.read m ++ xs).length = s.length + xs.length := by
        rw [List.length_append, hlength]
      rw [read, List.getElem?_concat_length, Option.getD_some]
      exact List.take_of_length_le (Nat.le_of_eq hfull)

end Slice

namespace Log

open Attr (shownLeaves)

variable {grow : Nat → Nat} {c : Config}

/-! ## Fields -/

namespace Handler

mutual

/-- The fields of an attribute are those of its leaves, and no array changes. -/
theorem fields_eq {groups : Slice} {m : List (List String)} (h : groups.Valid m) (a : Attr) :
    (fields grow c groups m a).1 = ((a.leaves.filterMap (Leaf.shown? c.formatTime)).map fun f =>
        (f.under (groups.read m)).pretty c.palette) ∧
      m <+: (fields grow c groups m a).2 := by
  match a with
  | .empty => exact ⟨rfl, List.prefix_rfl⟩
  | .leaf key d =>
    refine ⟨?_, List.prefix_rfl⟩
    cases hd : d.shown? c.formatTime key <;>
      simp [fields, Attr.leaves, Leaf.shown?, hd, prettyKey_eq, Leaf.pretty, Leaf.dotted,
        Leaf.under]
  | .group name members =>
    rw [Attr.leaves, Leaf.filterMap_shown?_inside, List.map_map]
    simp only [Function.comp_def, Leaf.under_inside]
    by_cases hname : name = ""
    · simp only [fields, hname, if_true]
      exact fieldsOf_eq h members
    · obtain ⟨hp, hvalid, hread⟩ := h.append_clip grow [name]
      obtain ⟨hfields, hp'⟩ := fieldsOf_eq hvalid members
      simp only [fields, hname, if_false, ← hread]
      exact ⟨hfields, hp.trans hp'⟩

private theorem fieldsOf_eq {groups : Slice} {m : List (List String)} (h : groups.Valid m)
    (attrs : List Attr) :
    (fieldsOf grow c groups m attrs).1 = ((shownLeaves c.formatTime attrs).map fun f =>
        (f.under (groups.read m)).pretty c.palette) ∧
      m <+: (fieldsOf grow c groups m attrs).2 := by
  match attrs with
  | [] => exact ⟨rfl, List.prefix_rfl⟩
  | a :: rest =>
    obtain ⟨hfirst, hp⟩ := fields_eq h a
    obtain ⟨hvalid, hread⟩ := h.kept hp
    obtain ⟨hothers, hp'⟩ := fieldsOf_eq hvalid rest
    rw [hread] at hothers
    refine ⟨?_, hp.trans hp'⟩
    rw [Attr.shownLeaves, Attr.leavesOf, List.filterMap_append, List.map_append]
    simp only [fieldsOf, hfirst, hothers]
    rfl

end

/-- A handler writes the head of a record, what was added to the handler, and what the record has
for itself. -/
theorem handle_eq {h : Handler} {m : Heap} (hvalid : h.groups.Valid m.groups) (r : Record)
    (o : Origin) :
    (h.handle grow c m r o).1 = " ".intercalate ((shownLeaves c.formatTime (c.head r o) ++
        (shownLeaves c.formatTime (h.attrs.read m.attrs ++ r.attrs)).map
          (Leaf.under (h.groups.read m.groups))).map (Leaf.pretty c.palette)) ∧
      m.groups <+: (h.handle grow c m r o).2.groups := by
  obtain ⟨hhead, hp⟩ := @fieldsOf_eq grow c {} m.groups (Slice.valid_nil _) (c.head r o)
  obtain ⟨hvalid₁, hread₁⟩ := hvalid.kept hp
  obtain ⟨hadded, hp₁⟩ := @fieldsOf_eq grow c h.groups _ hvalid₁ (h.attrs.read m.attrs)
  obtain ⟨hvalid₂, hread₂⟩ := hvalid₁.kept hp₁
  obtain ⟨hown, hp₂⟩ := @fieldsOf_eq grow c h.groups _ hvalid₂ r.attrs
  rw [hread₂, hread₁] at hown
  rw [hread₁] at hadded
  refine ⟨?_, (hp.trans hp₁).trans hp₂⟩
  simp only [handle, hhead, hadded, hown, Attr.shownLeaves_append, List.map_append, List.map_map,
    List.append_assoc]
  rfl

end Handler

/-! ## Families -/

/-- What a call adds to the handler that it derives. -/
def Call.addition? : Call → Option Addition
  | .withAttrs attrs => some (.attrs attrs)
  | .withGroup name => some (.group name)
  | .handle _ _ => none

/-- What was added to each of the handlers, where one more is derived. -/
def histories.step (hs : List (List Addition)) (place : Nat) (call : Call) : List (List Addition) :=
  match hs[place]?, call.addition? with
  | some additions, some a => hs ++ [additions ++ [a]]
  | _, _ => hs

/-- What was added to each of the handlers that come of the first one. -/
def histories (calls : List (Nat × Call)) : List (List Addition) :=
  calls.foldl (fun hs p => histories.step hs p.1 p.2) [[]]

private theorem histories_append (calls more : List (Nat × Call)) {place : Nat}
    {additions : List Addition} (h : (histories calls)[place]? = some additions) :
    (histories (calls ++ more))[place]? = some additions := by
  rw [histories, List.foldl_append, ← histories]
  generalize histories calls = hs at h
  induction more generalizing hs with
  | nil => exact h
  | cons p more ih =>
    refine ih (histories.step hs p.1 p.2) ?_
    unfold histories.step
    split
    · have hlt := (List.getElem?_eq_some_iff.mp h).1
      rw [List.getElem?_append_left hlt, h]
    · exact h

/-- A handler sees what was added to it. -/
structure Handler.Keeps (m : Heap) (h : Handler) (additions : List Addition) : Prop where
  attrsValid : h.attrs.Valid m.attrs
  groupsValid : h.groups.Valid m.groups
  attrs : h.attrs.read m.attrs = additions.flatMap Addition.given
  groups : h.groups.read m.groups = additions.flatMap Addition.opened

/-- Arrays only get more in number. -/
def Heap.Grows (m m' : Heap) : Prop := m.attrs <+: m'.attrs ∧ m.groups <+: m'.groups

namespace Handler.Keeps

variable {m m' : Heap} {h : Handler} {additions : List Addition}

private theorem grows (hk : h.Keeps m additions) (hm : m.Grows m') : h.Keeps m' additions := by
  obtain ⟨hattrs, hattrs'⟩ := hk.attrsValid.kept hm.1
  obtain ⟨hgroups, hgroups'⟩ := hk.groupsValid.kept hm.2
  exact ⟨hattrs, hgroups, hattrs'.trans hk.attrs, hgroups'.trans hk.groups⟩

private theorem withAttrs (hk : h.Keeps m additions) (grow : Nat → Nat) (attrs : List Attr) :
    (h.withAttrs grow m attrs).1.Keeps (h.withAttrs grow m attrs).2 (additions ++ [.attrs attrs]) ∧
      m.Grows (h.withAttrs grow m attrs).2 := by
  obtain ⟨hp, hvalid, hread⟩ := hk.attrsValid.append_clip grow attrs
  refine ⟨⟨hvalid, hk.groupsValid, ?_, ?_⟩, hp, List.prefix_rfl⟩
  · rw [List.flatMap_append, ← hk.attrs]
    simp only [List.flatMap_singleton, Addition.given]
    exact hread
  · rw [List.flatMap_append, ← hk.groups]
    exact (List.append_nil _).symm

private theorem withGroup (hk : h.Keeps m additions) (grow : Nat → Nat) (name : String) :
    (h.withGroup grow m name).1.Keeps (h.withGroup grow m name).2 (additions ++ [.group name]) ∧
      m.Grows (h.withGroup grow m name).2 := by
  by_cases hname : name = ""
  · have hsame : h.withGroup grow m name = (h, m) := if_pos hname
    rw [hsame]
    refine ⟨⟨hk.attrsValid, hk.groupsValid, ?_, ?_⟩, List.prefix_rfl, List.prefix_rfl⟩
    · simp [hk.attrs, Addition.given]
    · simp [hk.groups, Addition.opened, hname]
  · obtain ⟨hp, hvalid, hread⟩ := hk.groupsValid.append_clip grow [name]
    have hnew : h.withGroup grow m name =
        ({ h with groups := (h.groups.clip.append grow m.groups [name]).1 },
          { m with groups := (h.groups.clip.append grow m.groups [name]).2 }) := if_neg hname
    rw [hnew]
    refine ⟨⟨hk.attrsValid, hvalid, ?_, ?_⟩, List.prefix_rfl, hp⟩
    · simp [hk.attrs, Addition.given]
    · rw [List.flatMap_append, ← hk.groups]
      simpa [Addition.opened, hname] using hread

private theorem line_eq (hk : h.Keeps m additions) (hformat : c.format = .text)
    (hpretty : c.pretty = true) (r : Record) (o : Origin) :
    (h.handle grow c m r o).1 = ((Logger.make c).derive additions).line r o := by
  obtain ⟨hline, -⟩ := @handle_eq grow c h m hk.groupsValid r o
  rw [hline, hk.attrs, hk.groups, Logger.line_derive_pretty hformat hpretty]
  rfl

end Handler.Keeps

namespace Family

/-- Every handler sees what was added to it. -/
def Keeps (f : Family) (hs : List (List Addition)) : Prop :=
  List.Forall₂ (Handler.Keeps f.heap) f.handlers hs

variable {f : Family} {hs : List (List Addition)}

private theorem keeps_fresh : Keeps {} [[]] :=
  .cons ⟨Slice.valid_nil _, Slice.valid_nil _, rfl, rfl⟩ .nil

theorem Keeps.at (hk : f.Keeps hs) {place : Nat} {additions : List Addition}
    (ha : hs[place]? = some additions) :
    ∃ h, f.handlers[place]? = some h ∧ h.Keeps f.heap additions := by
  obtain ⟨hlt, rfl⟩ := List.getElem?_eq_some_iff.mp ha
  have hlt' : place < f.handlers.length := hk.length_eq ▸ hlt
  exact ⟨_, List.getElem?_eq_getElem hlt', (List.forall₂_iff_get.mp hk).2 place hlt' hlt⟩

/-- A call derives a handler that sees what was added to it, or none, and changes no array. -/
theorem Keeps.call (hk : f.Keeps hs) (grow : Nat → Nat) (c : Config) (place : Nat) (call : Call) :
    (f.call grow c place call).Keeps (histories.step hs place call) := by
  have hlater {m : Heap} (hm : f.heap.Grows m) :
      List.Forall₂ (Handler.Keeps m) f.handlers hs := hk.imp fun _ _ h => h.grows hm
  cases ha : hs[place]? with
  | none =>
    have hh : f.handlers[place]? = none := by
      rw [List.getElem?_eq_none_iff] at ha ⊢
      exact hk.length_eq ▸ ha
    have hsame : f.call grow c place call = f := by simp only [Family.call, hh]
    have hsame' : histories.step hs place call = hs := by simp only [histories.step, ha]
    rw [hsame, hsame']
    exact hk
  | some additions =>
    obtain ⟨h, hh, hkeeps⟩ := hk.at ha
    cases call with
    | withAttrs attrs =>
      obtain ⟨hnew, hgrows⟩ := hkeeps.withAttrs grow attrs
      simp only [Family.call, hh, histories.step, ha, Call.addition?]
      exact List.rel_append (hlater hgrows) (.cons hnew .nil)
    | withGroup name =>
      obtain ⟨hnew, hgrows⟩ := hkeeps.withGroup grow name
      simp only [Family.call, hh, histories.step, ha, Call.addition?]
      exact List.rel_append (hlater hgrows) (.cons hnew .nil)
    | handle r o =>
      have hgrows : f.heap.Grows (h.handle grow c f.heap r o).2 :=
        ⟨List.prefix_rfl, (Handler.handle_eq hkeeps.groupsValid r o).2⟩
      simp only [Family.call, hh, histories.step, ha, Call.addition?]
      exact hlater hgrows

theorem Keeps.calls (hk : f.Keeps hs) (grow : Nat → Nat) (c : Config) (calls : List (Nat × Call)) :
    (calls.foldl (fun f p => f.call grow c p.1 p.2) f).Keeps
      (calls.foldl (fun hs p => histories.step hs p.1 p.2) hs) := by
  induction calls generalizing f hs with
  | nil => exact hk
  | cons p calls ih => exact ih (hk.call grow c p.1 p.2)

/-- Whatever is derived or written later, the handler at a place writes as a logger to which the
same was added as to it. -/
theorem line_run (grow : Nat → Nat) (hformat : c.format = .text) (hpretty : c.pretty = true)
    (calls more : List (Nat × Call)) {place : Nat} {additions : List Addition}
    (ha : (histories calls)[place]? = some additions) (r : Record) (o : Origin) :
    (run grow c (calls ++ more)).line grow c place r o =
      some (((Logger.make c).derive additions).line r o) := by
  have hkeeps : (run grow c (calls ++ more)).Keeps (histories (calls ++ more)) :=
    keeps_fresh.calls grow c (calls ++ more)
  obtain ⟨h, hh, hkept⟩ := hkeeps.at (histories_append calls more ha)
  rw [line, hh, Option.map_some, hkept.line_eq hformat hpretty]

end Family

namespace Logger

/-- The fields of a line of text, for every series of additions, every record and every way to write
times, styles and sources.  In pretty text each value is in all groups, in plain text in those that
were opened before it was added, which is the same exactly if no group was opened after a value that
is shown.  Handlers that share arrays write so too, each as if it were alone: what is derived from
one or written by one changes nothing of what it or another writes. -/
theorem line_derive_text (config : Config) (additions : List Addition) (r : Record) (o : Origin) :
    let pretty : Config := { config with format := .text, pretty := true }
    let plain : Config := { config with format := .text, pretty := false }
    ((make pretty).derive additions).line r o = " ".intercalate
      ((shownLeaves config.formatTime (pretty.head r o) ++
        leavesInAll config.formatTime [] additions r.attrs).map (Leaf.pretty config.palette)) ∧
    ((make plain).derive additions).line r o = " ".intercalate
      ((shownLeaves config.formatTime (plain.head r o) ++
        leavesInOrder config.formatTime [] additions r.attrs).map Leaf.plain) ∧
    (leavesInAll config.formatTime [] additions r.attrs =
        leavesInOrder config.formatTime [] additions r.attrs ↔
      additions.Pairwise fun earlier later =>
        later.opened ≠ [] → shownLeaves config.formatTime earlier.given = []) ∧
    ∀ grow calls more place, (histories calls)[place]? = some additions →
      (Family.run grow pretty calls).line grow pretty place r o =
        some (((make pretty).derive additions).line r o) ∧
      (Family.run grow pretty (calls ++ more)).line grow pretty place r o =
        (Family.run grow pretty calls).line grow pretty place r o := by
  intro pretty plain
  refine ⟨line_derive_pretty rfl rfl additions r o, line_derive_plain rfl rfl additions r o,
    leavesInAll_eq_iff config.formatTime [] additions r.attrs, ?_⟩
  intro grow calls more place ha
  have hbefore := @Family.line_run pretty grow rfl rfl calls [] place additions ha r o
  have hafter := @Family.line_run pretty grow rfl rfl calls more place additions ha r o
  rw [List.append_nil] at hbefore
  exact ⟨hbefore, hafter.trans hbefore.symm⟩

/-- Two handlers that are derived from one with room behind its groups write to different arrays. -/
theorem line_derive_text_siblings :
    let calls := [(0, .withGroup "a"), (1, .withGroup "b"), (1, .withGroup "c")]
    let r : Record := ⟨.info, "m", [.text "x" "1"]⟩
    (histories calls)[2]? = some [.group "a", .group "b"] ∧
    (Family.run (· * 4) {} calls).line (· * 4) {} 2 r = some "level=INFO msg=m a.b.x=1" := by
  intro calls r
  have ha : (histories calls)[2]? = some [.group "a", .group "b"] := rfl
  obtain ⟨-, -, -, hfamily⟩ := line_derive_text {} [.group "a", .group "b"] r {}
  refine ⟨ha, (hfamily (· * 4) calls [] 2 ha).1.trans (congrArg some ?_)⟩
  decide +kernel

/-- A value that was added before a group was opened: in pretty text it is in the group. -/
theorem line_attr_before_group :
    let additions := [.attrs [.text "a" "1"], .group "g"]
    let r : Record := ⟨.info, "m", [.text "b" "2"]⟩
    ((make { pretty := true }).derive additions).line r = "level=INFO msg=m g.a=1 g.b=2" ∧
    ((make { pretty := false }).derive additions).line r = "level=INFO msg=m a=1 g.b=2" := by
  constructor <;> decide +kernel

end Logger

end Log

end HdlExpr
