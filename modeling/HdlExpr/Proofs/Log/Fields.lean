import Mathlib.Data.List.Basic
import HdlExpr.Log.Logger

/-!
# Keys of log fields

A line of text has one field for each value that is shown, with its key behind the names of groups.
In plain text these are the groups that were open when the value was added, then those around it in
its attribute.  In pretty text they are all open groups, then those around it.  The two agree
exactly if no group was opened after a value that is shown.
-/

namespace HdlExpr.Log

/-! ## Leaves -/

/-- A value with the names of the groups around it, the outermost first. -/
structure Leaf where
  path : List String
  key : String
  datum : Datum

namespace Leaf

/-- A leaf in a group; one without a name adds nothing. -/
def inside (name : String) (f : Leaf) : Leaf :=
  if name = "" then f else { f with path := name :: f.path }

def under (opened : List String) (f : Leaf) : Leaf := { f with path := opened ++ f.path }

def shown? (formatTime : Int → String) (f : Leaf) : Option Leaf :=
  (f.datum.shown? formatTime f.key).map fun d => { f with datum := d }

/-- The names of the groups and the key, with points between them. -/
def dotted (f : Leaf) : String := ".".intercalate (f.path ++ [f.key])

/-- The names of groups, each with a point behind it. -/
def pathText (path : List String) : String := String.join (path.map (· ++ "."))

/-- Whether the key or the names of the groups could be misread. -/
def isQuoted (f : Leaf) : Bool :=
  (!f.path.isEmpty && needsQuotes (pathText f.path)) || needsQuotes f.key

def pretty (p : Palette) (f : Leaf) : String := p.key f.dotted ++ "=" ++ f.datum.pretty p f.key

def plain (f : Leaf) : String :=
  (if f.isQuoted then Text.quote f.dotted else f.dotted) ++ "=" ++ f.datum.plain

@[simp] theorem under_inside (opened : List String) (name : String) (f : Leaf) :
    (f.inside name).under opened = f.under (if name = "" then opened else opened ++ [name]) := by
  by_cases hname : name = "" <;> simp [inside, under, hname]

private theorem shown?_inside (formatTime : Int → String) (name : String) (f : Leaf) :
    (f.inside name).shown? formatTime = (f.shown? formatTime).map (inside name) := by
  by_cases hname : name = "" <;> simp [inside, shown?, hname, Function.comp_def]

theorem filterMap_shown?_inside (formatTime : Int → String) (name : String) (fs : List Leaf) :
    (fs.map (inside name)).filterMap (shown? formatTime) =
      (fs.filterMap (shown? formatTime)).map (inside name) := by
  rw [List.filterMap_map, List.map_filterMap]
  simp only [Function.comp_def, shown?_inside]

private theorem under_injective {opened more : List String} {f : Leaf}
    (h : f.under opened = f.under (opened ++ more)) : more = [] := by
  have hpath := congrArg (fun f => f.path.length) h
  simp only [under, List.length_append] at hpath
  exact List.length_eq_zero_iff.mp (by omega)

end Leaf

/-! ## Texts of keys -/

theorem prettyKey_eq (path : List String) (key : String) :
    prettyKey path key = ".".intercalate (path ++ [key]) := by
  rw [prettyKey]
  cases path with
  | nil => rfl
  | cons name path =>
    rw [String.intercalate_append_of_ne_nil (by simp) (by simp), String.intercalate_singleton]
    rfl

private theorem pathText_append (path : List String) (key : String) :
    Leaf.pathText path ++ key = ".".intercalate (path ++ [key]) := by
  induction path with
  | nil => simp [Leaf.pathText]
  | cons name path ih =>
    rw [List.cons_append, String.intercalate_cons_of_ne_nil (by simp), ← ih]
    simp [Leaf.pathText, String.append_assoc]

private theorem quoteKey_pathText (path : List String) (key : String) (d : Datum) :
    quoteKey (Leaf.pathText path) key =
      if Leaf.isQuoted ⟨path, key, d⟩ then Text.quote (".".intercalate (path ++ [key]))
      else ".".intercalate (path ++ [key]) := by
  rw [quoteKey, pathText_append]
  cases path with
  | nil => simp [Leaf.isQuoted, Leaf.pathText, quoteIfNeeded]
  | cons name path => simp [Leaf.isQuoted, Leaf.pathText]

namespace Attr

mutual

/-- The values in an attribute, in order. -/
def leaves : Attr → List Leaf
  | .empty => []
  | .leaf key d => [⟨[], key, d⟩]
  | .group name members => (leavesOf members).map (Leaf.inside name)

def leavesOf : List Attr → List Leaf
  | [] => []
  | a :: rest => a.leaves ++ leavesOf rest

end

@[simp] private theorem leavesOf_append (attrs more : List Attr) :
    leavesOf (attrs ++ more) = leavesOf attrs ++ leavesOf more := by
  induction attrs with
  | nil => rfl
  | cons a attrs ih => simp [leavesOf, ih]

mutual

theorem prettyFields_eq_map (p : Palette) (path : List String) (a : Attr) :
    a.prettyFields p path = a.leaves.map fun f => (f.under path).pretty p := by
  match a with
  | .empty => rfl
  | .leaf key d => simp [prettyFields, leaves, prettyKey_eq, Leaf.pretty, Leaf.dotted, Leaf.under]
  | .group name members =>
    rw [prettyFields, leaves, List.map_map, prettyFieldsOf_eq_map]
    simp only [Function.comp_def, Leaf.under_inside]

private theorem prettyFieldsOf_eq_map (p : Palette) (path : List String) (attrs : List Attr) :
    prettyFieldsOf p path attrs = (leavesOf attrs).map fun f => (f.under path).pretty p := by
  match attrs with
  | [] => rfl
  | a :: rest =>
    rw [prettyFieldsOf, leavesOf, List.map_append, prettyFields_eq_map, prettyFieldsOf_eq_map]

end

mutual

theorem plainFields_eq_map (path : List String) (a : Attr) :
    a.plainFields (Leaf.pathText path) = a.leaves.map fun f => (f.under path).plain := by
  match a with
  | .empty => rfl
  | .leaf key d =>
    simp [plainFields, leaves, quoteKey_pathText path key d, Leaf.plain, Leaf.dotted, Leaf.under]
  | .group name members =>
    have hpath : (if name = "" then Leaf.pathText path else Leaf.pathText path ++ name ++ ".") =
        Leaf.pathText (if name = "" then path else path ++ [name]) := by
      by_cases hname : name = "" <;> simp [Leaf.pathText, hname, String.append_assoc]
    rw [plainFields, leaves, List.map_map, hpath, plainFieldsOf_eq_map]
    simp only [Function.comp_def, Leaf.under_inside]

private theorem plainFieldsOf_eq_map (path : List String) (attrs : List Attr) :
    plainFieldsOf (Leaf.pathText path) attrs =
      (leavesOf attrs).map fun f => (f.under path).plain := by
  match attrs with
  | [] => rfl
  | a :: rest =>
    rw [plainFieldsOf, leavesOf, List.map_append, plainFields_eq_map, plainFieldsOf_eq_map]

end

/-! ## What is shown -/

def shownLeaves (formatTime : Int → String) (attrs : List Attr) : List Leaf :=
  (leavesOf attrs).filterMap (Leaf.shown? formatTime)

@[simp] theorem shownLeaves_append (formatTime : Int → String) (attrs more : List Attr) :
    shownLeaves formatTime (attrs ++ more) =
      shownLeaves formatTime attrs ++ shownLeaves formatTime more := by
  rw [shownLeaves, leavesOf_append, List.filterMap_append]
  rfl

private theorem shownLeaves_group (formatTime : Int → String) (name : String)
    (members : List Attr) : shownLeaves formatTime [.group name members] =
      (shownLeaves formatTime members).map (Leaf.inside name) := by
  rw [shownLeaves, leavesOf, leaves, leavesOf, List.append_nil, Leaf.filterMap_shown?_inside]
  rfl

/-- A group of which nothing is shown has no leaves, so it may be left out. -/
theorem leavesOf_shown_group (formatTime : Int → String) (name : String) (members : List Attr) :
    leavesOf ((Attr.group name members).shown formatTime) =
      (leavesOf (shownAll formatTime members)).map (Leaf.inside name) := by
  rw [shown]
  split
  · next hnone => simp [hnone, leavesOf]
  · by_cases hname : name = ""
    · have hinside : Leaf.inside name = id := by
        funext f
        simp [Leaf.inside, hname]
      rw [if_pos hname, hinside, List.map_id]
    · simp [hname, leavesOf, leaves]

mutual

theorem leavesOf_shown (formatTime : Int → String) (a : Attr) :
    leavesOf (a.shown formatTime) = a.leaves.filterMap (Leaf.shown? formatTime) := by
  match a with
  | .empty => rfl
  | .leaf key d =>
    cases h : d.shown? formatTime key <;> simp [shown, leaves, leavesOf, Leaf.shown?, h]
  | .group name members =>
    rw [leavesOf_shown_group, leavesOf_shownAll, leaves, Leaf.filterMap_shown?_inside]
    rfl

private theorem leavesOf_shownAll (formatTime : Int → String) (attrs : List Attr) :
    leavesOf (shownAll formatTime attrs) = shownLeaves formatTime attrs := by
  match attrs with
  | [] => rfl
  | a :: rest =>
    rw [shownAll, leavesOf_append, leavesOf_shown, leavesOf_shownAll, shownLeaves, shownLeaves,
      leavesOf, List.filterMap_append]

end

end Attr

/-! ## Additions -/

namespace Addition

def given : Addition → List Attr
  | .attrs more => more
  | .group _ => []

/-- The group that is opened; one without a name is not. -/
def opened : Addition → List String
  | .attrs _ => []
  | .group name => if name = "" then [] else [name]

/-- What a logger keeps of the addition: a group without a name is left out. -/
def kept : Addition → List Addition
  | .attrs more => [.attrs more]
  | .group name => if name = "" then [] else [.group name]

end Addition

open Attr (shownLeaves)

/-- The values that are shown, those of the additions first and then those of a record.  Each is in
the groups that were opened before it was added. -/
def leavesInOrder (formatTime : Int → String) (opened : List String) :
    List Addition → List Attr → List Leaf
  | [], attrs => (shownLeaves formatTime attrs).map (Leaf.under opened)
  | a :: rest, attrs =>
    (shownLeaves formatTime a.given).map (Leaf.under opened) ++
      leavesInOrder formatTime (opened ++ a.opened) rest attrs

/-- The same values, each in all groups. -/
def leavesInAll (formatTime : Int → String) (opened : List String) (additions : List Addition)
    (attrs : List Attr) : List Leaf :=
  (shownLeaves formatTime (additions.flatMap Addition.given ++ attrs)).map
    (Leaf.under (opened ++ additions.flatMap Addition.opened))

private theorem leavesInAll_cons (formatTime : Int → String) (opened : List String) (a : Addition)
    (additions : List Addition) (attrs : List Attr) :
    leavesInAll formatTime opened (a :: additions) attrs =
      (shownLeaves formatTime a.given).map
          (Leaf.under (opened ++ (a.opened ++ additions.flatMap Addition.opened))) ++
        leavesInAll formatTime (opened ++ a.opened) additions attrs := by
  simp only [leavesInAll, List.flatMap_cons, List.append_assoc, Attr.shownLeaves_append,
    List.map_append]

private theorem map_under_eq_iff (opened : List String) {fs : List Leaf} {more : List String} :
    fs.map (Leaf.under opened) = fs.map (Leaf.under (opened ++ more)) ↔ fs = [] ∨ more = [] := by
  constructor
  · intro h
    cases fs with
    | nil => exact .inl rfl
    | cons f fs => exact .inr (Leaf.under_injective (List.cons.inj h).1)
  · rintro (rfl | rfl)
    · rfl
    · rw [List.append_nil]

/-- An addition does not both give values and open a group. -/
theorem given_eq_nil_or_opened_eq_nil (formatTime : Int → String) (a : Addition)
    (additions : List Addition) :
    shownLeaves formatTime a.given = [] ∨ a.opened ++ additions.flatMap Addition.opened = [] ↔
      ∀ later ∈ additions, later.opened ≠ [] → shownLeaves formatTime a.given = [] := by
  have hexclusive : shownLeaves formatTime a.given = [] ∨ a.opened = [] := by
    cases a with
    | attrs more => exact .inr rfl
    | group name => exact .inl rfl
  simp only [List.append_eq_nil_iff, List.flatMap_eq_nil_iff]
  constructor
  · rintro (hnone | ⟨-, hlater⟩) later hmem hopened
    · exact hnone
    · exact absurd (hlater later hmem) hopened
  · intro h
    by_cases hnone : shownLeaves formatTime a.given = []
    · exact .inl hnone
    · refine .inr ⟨hexclusive.resolve_left hnone, ?_⟩
      intro later hmem
      by_contra hopened
      exact hnone (h later hmem hopened)

/-- All groups are the right ones exactly if nothing that is shown was added before a group. -/
theorem leavesInAll_eq_iff (formatTime : Int → String) (opened : List String)
    (additions : List Addition) (attrs : List Attr) :
    leavesInAll formatTime opened additions attrs =
        leavesInOrder formatTime opened additions attrs ↔
      additions.Pairwise fun earlier later =>
        later.opened ≠ [] → shownLeaves formatTime earlier.given = [] := by
  induction additions generalizing opened with
  | nil => simp [leavesInAll, leavesInOrder]
  | cons a additions ih =>
    rw [List.pairwise_cons, ← ih (opened ++ a.opened), ← given_eq_nil_or_opened_eq_nil,
      ← map_under_eq_iff opened, leavesInAll_cons, leavesInOrder]
    constructor
    · intro h
      have hparts := List.append_inj h (by simp)
      exact ⟨hparts.1.symm, hparts.2⟩
    · rintro ⟨hfirst, hrest⟩
      rw [hfirst, hrest]

private theorem leavesInOrder_eq_map_nest (formatTime : Int → String) (opened : List String)
    (additions : List Addition) (attrs : List Attr) :
    leavesInOrder formatTime opened additions attrs =
      (shownLeaves formatTime (Logger.nest additions attrs)).map (Leaf.under opened) := by
  induction additions generalizing opened with
  | nil => rfl
  | cons a additions ih =>
    rw [leavesInOrder, ih]
    cases a with
    | attrs more =>
      simp [Logger.nest, Addition.given, Addition.opened]
    | group name =>
      rw [Logger.nest, Attr.shownLeaves_group, List.map_map]
      by_cases hname : name = ""
      · simp [Addition.given, Addition.opened, hname, shownLeaves, Attr.leavesOf, Function.comp_def]
      · simp [Addition.given, Addition.opened, hname, shownLeaves, Attr.leavesOf, Function.comp_def]

private theorem leavesInOrder_kept (formatTime : Int → String) (opened : List String)
    (additions : List Addition) (attrs : List Attr) :
    leavesInOrder formatTime opened (additions.flatMap Addition.kept) attrs =
      leavesInOrder formatTime opened additions attrs := by
  induction additions generalizing opened with
  | nil => rfl
  | cons a additions ih =>
    rw [List.flatMap_cons, leavesInOrder, ← ih]
    cases a with
    | attrs more => rfl
    | group name =>
      by_cases hname : name = "" <;>
        simp [Addition.kept, Addition.given, Addition.opened, hname, shownLeaves, Attr.leavesOf,
          leavesInOrder]

/-! ## Loggers -/

namespace Logger

def extend (l : Logger) : Addition → Logger
  | .attrs attrs => l.withAttrs attrs
  | .group name => l.withGroup name

def derive (l : Logger) (additions : List Addition) : Logger := additions.foldl extend l

private theorem extend_eq {l : Logger} (h : l.silent = false) (a : Addition) :
    l.extend a = { l with additions := l.additions ++ a.kept } := by
  cases a with
  | attrs more => simp [extend, withAttrs, h, Addition.kept]
  | group name => by_cases hname : name = "" <;> simp [extend, withGroup, hname, Addition.kept]

private theorem derive_eq {l : Logger} (h : l.silent = false) (additions : List Addition) :
    l.derive additions =
      { l with additions := l.additions ++ additions.flatMap Addition.kept } := by
  induction additions generalizing l with
  | nil => simp [derive]
  | cons a additions ih =>
    have hrest := ih (l := { l with additions := l.additions ++ a.kept }) h
    rw [derive] at hrest ⊢
    rw [List.foldl_cons, extend_eq h, hrest, List.flatMap_cons, List.append_assoc]

private theorem groups_of_kept {l : Logger} {additions : List Addition}
    (h : l.additions = additions.flatMap Addition.kept) :
    l.groups = additions.flatMap Addition.opened := by
  rw [groups, h]
  clear h
  induction additions with
  | nil => rfl
  | cons a additions ih =>
    rw [List.flatMap_cons, List.filterMap_append, ih, List.flatMap_cons]
    cases a with
    | attrs more => rfl
    | group name => by_cases hname : name = "" <;> simp [Addition.kept, Addition.opened, hname]

private theorem added_of_kept {l : Logger} {additions : List Addition}
    (h : l.additions = additions.flatMap Addition.kept) :
    l.added = additions.flatMap Addition.given := by
  rw [added, h]
  clear h
  induction additions with
  | nil => rfl
  | cons a additions ih =>
    rw [List.flatMap_cons, List.flatMap_append, ih, List.flatMap_cons]
    cases a with
    | attrs more => simp [Addition.kept, Addition.given]
    | group name => by_cases hname : name = "" <;> simp [Addition.kept, Addition.given, hname]

private theorem line_pretty {l : Logger} {additions : List Addition}
    (hformat : l.config.format = .text) (hpretty : l.config.pretty = true)
    (hkept : l.additions = additions.flatMap Addition.kept) (r : Record) (o : Origin) :
    l.line r o = " ".intercalate ((shownLeaves l.config.formatTime (l.config.head r o) ++
      leavesInAll l.config.formatTime [] additions r.attrs).map
        (Leaf.pretty l.config.palette)) := by
  have hline : l.line r o =
      prettyLine l.config.palette (Attr.shownAll l.config.formatTime (l.config.head r o)) l.groups
        (Attr.shownAll l.config.formatTime (l.added ++ r.attrs)) := by
    simp [line, hformat, hpretty]
  rw [hline, prettyLine, Attr.prettyFieldsOf_eq_map, Attr.prettyFieldsOf_eq_map,
    Attr.leavesOf_shownAll, Attr.leavesOf_shownAll, groups_of_kept hkept, added_of_kept hkept,
    leavesInAll, List.map_append, List.map_map]
  rfl

private theorem line_plain {l : Logger} {additions : List Addition}
    (hformat : l.config.format = .text) (hpretty : l.config.pretty = false)
    (hkept : l.additions = additions.flatMap Addition.kept) (r : Record) (o : Origin) :
    l.line r o = " ".intercalate ((shownLeaves l.config.formatTime (l.config.head r o) ++
      leavesInOrder l.config.formatTime [] additions r.attrs).map Leaf.plain) := by
  have hroot : ∀ attrs, Attr.plainFieldsOf "" attrs =
      (Attr.leavesOf attrs).map fun f => (f.under []).plain := Attr.plainFieldsOf_eq_map []
  have hline : l.line r o =
      plainLine (Attr.shownAll l.config.formatTime
        (l.config.head r o ++ nest l.additions r.attrs)) := by
    simp [line, hformat, hpretty]
  rw [hline, plainLine, hroot, Attr.leavesOf_shownAll, Attr.shownLeaves_append,
    ← leavesInOrder_kept, leavesInOrder_eq_map_nest, ← hkept, List.map_append, List.map_append,
    List.map_map]
  rfl

theorem line_derive_pretty {c : Config} (hformat : c.format = .text) (hpretty : c.pretty = true)
    (additions : List Addition) (r : Record) (o : Origin) :
    ((make c).derive additions).line r o = " ".intercalate
      ((shownLeaves c.formatTime (c.head r o) ++
        leavesInAll c.formatTime [] additions r.attrs).map (Leaf.pretty c.palette)) := by
  rw [derive_eq rfl]
  exact line_pretty hformat hpretty rfl r o

theorem line_derive_plain {c : Config} (hformat : c.format = .text) (hpretty : c.pretty = false)
    (additions : List Addition) (r : Record) (o : Origin) :
    ((make c).derive additions).line r o = " ".intercalate
      ((shownLeaves c.formatTime (c.head r o) ++
        leavesInOrder c.formatTime [] additions r.attrs).map Leaf.plain) := by
  rw [derive_eq rfl]
  exact line_plain hformat hpretty rfl r o

end Logger

end HdlExpr.Log
