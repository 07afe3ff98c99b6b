import HdlExpr.Proofs.Reading
import HdlExpr.Proofs.Run

/-!
# Building terms and reading them back

Terms of the expression grammar are built from their operands up.  Whatever the tree held before,
the node that stands for a term reads as the term without its parentheses.
-/

namespace HdlExpr

open HdlExpr.Tree (Build Gives GivesAll)
open Outline

/-- An operator that can stand before an operand. -/
abbrev PrefixTag := { op : Tag // op.unaryOp?.isSome = true }

abbrev StepTag := { op : Tag // op.postOp?.isSome = true }

/-- An operator between events. -/
abbrev CombinatorTag := { op : Tag // op.combinator?.isSome = true }

abbrev ScalarTag := { tag : Tag // tag.scalarBit?.isSome = true }

/-- Expressions.  A name has a first segment and perhaps more of them. -/
inductive Term where
  | int (text : String)
  | real (text : String)
  | str (text : String)
  | scalar (tag : ScalarTag)
  | null
  | ident (first : String) (more : List String)
  | bitSelect (name : String) (index : Term)
  | partSelect (name : String) (left right : Term)
  | indexedSelect (name : String) (base : Term) (up : Bool) (width : Term)
  | binary (left : Term) (op : Tag) (right : Term)
  | paren (operand : Term)
  | unary (op : PrefixTag) (operand : Term)
  | preStep (op : StepTag) (first : String) (more : List String)
  | postStep (op : StepTag) (first : String) (more : List String)
  | systemCall (name : String)
  | concat (operands : List Term)
  | multiConcat (count : Term) (operands : List Term)

/-- Events: the edge of a signal, or a list of events with the operators between them. -/
inductive EventTerm where
  | edge (op : PrefixTag) (signal : String)
  | events (first : EventTerm) (rest : List (CombinatorTag × EventTerm))

mutual

def Term.build : Term → Build NodeId
  | .int text => .literal .intConst text
  | .real text => .literal .realConst text
  | .str text => .literal .stringLiteral text
  | .scalar tag => .scalar tag
  | .null => .null
  | .ident first more => .ident (first :: more)
  | .bitSelect name index => do .bitSelect name (← index.build)
  | .partSelect name left right => do
    let l ← left.build
    .partSelect name l (← right.build)
  | .indexedSelect name base up width => do
    let b ← base.build
    .indexedSelect name b up (← width.build)
  | .binary left op right => do
    let l ← left.build
    .binary l op (← right.build)
  | .paren operand => do .paren (← operand.build)
  | .unary op operand => do .unary op (← operand.build)
  | .preStep op first more => .preStep op (first :: more)
  | .postStep op first more => .postStep op (first :: more)
  | .systemCall name => .systemCall name
  | .concat operands => do .concat (← buildAll operands)
  | .multiConcat count operands => do
    let n ← count.build
    .multiConcat n (← buildAll operands)

def Term.buildAll : List Term → Build (List NodeId)
  | [] => pure []
  | e :: rest => do
    let n ← e.build
    pure (n :: (← buildAll rest))

end

mutual

/-- The term without its parentheses.  A step before a name is an operator before it. -/
def Term.reading : Term → Reading
  | .int text => .literal .intConst text
  | .real text => .literal .realConst text
  | .str text => .literal .stringLiteral text
  | .scalar tag => .literal tag (if tag.val.name.endsWith "1" then "'1" else "'0")
  | .null => .literal .nullKeyword "null"
  | .ident first more => .name (first :: more)
  | .bitSelect name index => .bit [name] index.reading
  | .partSelect name left right => .part [name] left.reading right.reading
  | .indexedSelect name base up width =>
    .indexed [name] base.reading (if up then .incPartSelectOp else .decPartSelectOp) width.reading
  | .binary left op right => .binary left.reading op right.reading
  | .paren operand => operand.reading
  | .unary op operand => .unary op operand.reading
  | .preStep op first more => .unary op (.name (first :: more))
  | .postStep op first more => .lvalue (.name (first :: more)) (some op)
  | .systemCall name => .call name
  | .concat operands => .concat .concatenation (readings operands)
  | .multiConcat count operands =>
    .concat .multipleConcatenation (count.reading :: readings operands)

def Term.readings : List Term → List Reading
  | [] => []
  | e :: rest => e.reading :: readings rest

end

mutual

def EventTerm.build : EventTerm → Build NodeId
  | .edge op signal => .edge op signal
  | .events first rest => do
    let n ← first.build
    let items ← buildRest rest
    .events (.inl n :: items.flatMap fun item => [.inr item.1, .inl item.2])

def EventTerm.buildRest : List (CombinatorTag × EventTerm) → Build (List (Tag × NodeId))
  | [] => pure []
  | (op, e) :: rest => do
    let n ← e.build
    pure ((op.val, n) :: (← buildRest rest))

end

mutual

def EventTerm.reading : EventTerm → Reading
  | .edge op signal => .unary op (.name [signal])
  | .events first rest => .events first.reading (readingRest rest)

def EventTerm.readingRest : List (CombinatorTag × EventTerm) → List (Tag × Reading)
  | [] => []
  | (op, e) :: rest => (op.val, e.reading) :: readingRest rest

end

/-! ## Forms of expression -/

def Outline.primary (os : List Outline) : Outline :=
  .node .constantExpression "" [.node .constantPrimary "" os]

theorem Outline.says_primary {os : List Outline} {r : Reading}
    (h : (node .constantPrimary "" os).Says r) : (primary os).Says r :=
  says_wrapper rfl h

namespace Tree.Holds

variable {t : Tree} {roots : List (NodeId × Outline)}

private theorem primary (taken : List (NodeId × Outline)) (h : t.Holds (taken ++ roots)) :
    Gives (Build.primary (taken.map Prod.fst)) t (.primary (taken.map Prod.snd)) roots := by
  unfold Build.primary
  refine .bind (h.node taken .constantPrimary) fun n t₁ h₁ => ?_
  exact h₁.node [_] .constantExpression

private theorem names (h : t.Holds roots) (segments : List String) :
    GivesAll (Build.names segments) t (segments.map (Outline.leaf .stringConst)) roots := by
  induction segments generalizing t roots with
  | nil => exact .nil h
  | cons s segments ih =>
    rw [Build.names, List.mapM_cons]
    exact .cons (h.leaf .stringConst s) fun n t₁ h₁ => ih h₁

private theorem lvalue (h : t.Holds roots) (segments : List String) :
    Gives (Build.lvalue segments) t (.node .variableLvalue ""
      [.node .hierarchicalIdentifier "" (segments.map (Outline.leaf .stringConst))]) roots := by
  unfold Build.lvalue
  refine GivesAll.bind (h.names segments) fun taken t₁ hs h₁ => ?_
  rw [← hs]
  refine .bind (h₁.node taken .hierarchicalIdentifier) fun n t₂ h₂ => ?_
  exact h₂.node [_] .variableLvalue

private theorem selected {select : NodeId} {o : Outline} (h : t.Holds ((select, o) :: roots))
    (name : String) :
    Gives (Build.selected name select) t (.primary [Outline.leaf .stringConst name, o]) roots := by
  unfold Build.selected
  refine .bind (h.leaf .stringConst name) fun n t₁ h₁ => ?_
  exact h₁.primary [_, _]

end Tree.Holds

/-! ## Terms -/

/-- From any tree, a root of a kind is added that says `r`, and the roots at hand stay. -/
def Builds (x : Build NodeId) (kind : Tag → Bool) (r : Reading) : Prop :=
  ∃ o : Outline, kind o.tag = true ∧ o.Says r ∧
    ∀ (t : Tree) (roots : List (NodeId × Outline)), t.Holds roots → Gives x t o roots

abbrev BuildsTerm (x : Build NodeId) (r : Reading) : Prop := Builds x Tag.isOperandChain r

section Builds

variable {x y : Build NodeId} {a b : Reading}

private theorem literal_builds {tag : Tag} (hlit : tag.isLiteral = true) (text : String) :
    BuildsTerm (.literal tag text) (.literal tag text) := by
  refine ⟨primary [node .primaryLiteral "" [leaf tag text]], rfl,
    says_primary (says_wrapper rfl (says_literal hlit)), fun t roots h => ?_⟩
  refine .bind (h.leaf tag text) fun n t₁ h₁ => ?_
  refine .bind (h₁.node [_] .primaryLiteral) fun p t₂ h₂ => ?_
  exact h₂.primary [_]

private theorem ident_builds (first : String) (more : List String) :
    BuildsTerm (.ident (first :: more)) (.name (first :: more)) := by
  refine ⟨primary ((first :: more).map (leaf .stringConst)), rfl,
    says_primary (says_name first more), fun t roots h => ?_⟩
  refine GivesAll.bind (h.names (first :: more)) fun taken t₁ hs h₁ => ?_
  rw [← hs]
  exact h₁.primary taken

private theorem bitSelect_builds (name : String) (hx : BuildsTerm x a) :
    BuildsTerm (do .bitSelect name (← x)) (.bit [name] a) := by
  obtain ⟨o, _, ho, hx⟩ := hx
  refine ⟨primary [leaf .stringConst name, node .select "" [node .bitSelect "" [o]]], rfl,
    says_primary (says_bit name ho), fun t roots h => ?_⟩
  refine .bind (hx t roots h) fun i t₁ h₁ => ?_
  refine .bind (h₁.node [_] .bitSelect) fun b t₂ h₂ => ?_
  refine .bind (h₂.node [_] .select) fun s t₃ h₃ => ?_
  exact h₃.selected name

private theorem partSelect_builds (name : String) (hx : BuildsTerm x a) (hy : BuildsTerm y b) :
    BuildsTerm (do let l ← x; .partSelect name l (← y)) (.part [name] a b) := by
  obtain ⟨o, _, ho, hx⟩ := hx
  obtain ⟨o', _, ho', hy⟩ := hy
  refine ⟨primary [leaf .stringConst name, node .select "" [leaf .bitSelect "",
      node .partSelectRange "" [node .constantRange "" [o, o']]]], rfl,
    says_primary (says_part name ho ho'), fun t roots h => ?_⟩
  refine .bind (hx t roots h) fun l t₁ h₁ => ?_
  refine .bind (hy t₁ _ h₁) fun r t₂ h₂ => ?_
  refine .bind (h₂.swap.node [_, _] .constantRange) fun c t₃ h₃ => ?_
  refine .bind (h₃.node [_] .partSelectRange) fun p t₄ h₄ => ?_
  refine .bind (h₄.node [] .bitSelect) fun b t₅ h₅ => ?_
  refine .bind (h₅.node [_, _] .select) fun s t₆ h₆ => ?_
  exact h₆.selected name

private theorem indexedSelect_builds (name : String) (up : Bool) (hx : BuildsTerm x a)
    (hy : BuildsTerm y b) :
    BuildsTerm (do let l ← x; .indexedSelect name l up (← y))
      (.indexed [name] a (if up then .incPartSelectOp else .decPartSelectOp) b) := by
  obtain ⟨o, _, ho, hx⟩ := hx
  obtain ⟨o', _, ho', hy⟩ := hy
  let direction : Tag := if up then .incPartSelectOp else .decPartSelectOp
  refine ⟨primary [leaf .stringConst name, node .select "" [node .partSelectRange ""
      [node .constantIndexedRange "" [o, leaf direction "", o']]]], rfl,
    says_primary (says_indexed name ho ho'), fun t roots h => ?_⟩
  refine .bind (hx t roots h) fun l t₁ h₁ => ?_
  refine .bind (hy t₁ _ h₁) fun r t₂ h₂ => ?_
  refine .bind (h₂.swap.leaf _ "") fun d t₃ h₃ => ?_
  refine .bind (h₃.swap.node [_, _, _] .constantIndexedRange) fun c t₄ h₄ => ?_
  refine .bind (h₄.node [_] .partSelectRange) fun p t₅ h₅ => ?_
  refine .bind (h₅.node [_] .select) fun s t₆ h₆ => ?_
  exact h₆.selected name

private theorem binary_builds (op : Tag) (hx : BuildsTerm x a) (hy : BuildsTerm y b) :
    BuildsTerm (do let l ← x; .binary l op (← y)) (.binary a op b) := by
  obtain ⟨o, hc, ho, hx⟩ := hx
  obtain ⟨o', _, ho', hy⟩ := hy
  refine ⟨node .constantExpression "" [o, leaf op "", o'], rfl, says_binary hc ho ho',
    fun t roots h => ?_⟩
  refine .bind (hx t roots h) fun l t₁ h₁ => ?_
  refine .bind (hy t₁ _ h₁) fun r t₂ h₂ => ?_
  refine .bind (h₂.swap.leaf op "") fun p t₃ h₃ => ?_
  exact h₃.swap.node [_, _, _] .constantExpression

private theorem paren_builds (hx : BuildsTerm x a) : BuildsTerm (do .paren (← x)) a := by
  obtain ⟨o, hc, ho, hx⟩ := hx
  have hinner : (node .constantMintypmaxExpression "" [o]).Says a :=
    says_skipped (by simp [hc]) ho
  refine ⟨primary [node .constantMintypmaxExpression "" [o]], rfl,
    says_primary (says_wrapper rfl hinner), fun t roots h => ?_⟩
  refine .bind (hx t roots h) fun n t₁ h₁ => ?_
  refine .bind (h₁.node [_] .constantMintypmaxExpression) fun m t₂ h₂ => ?_
  exact h₂.primary [_]

private theorem unary_builds (op : PrefixTag) (hx : BuildsTerm x a) :
    BuildsTerm (do .unary op (← x)) (.unary op a) := by
  obtain ⟨o, _, ho, hx⟩ := hx
  refine ⟨node .constantExpression "" [leaf op "", o], rfl, says_unary op.property ho,
    fun t roots h => ?_⟩
  refine .bind (hx t roots h) fun n t₁ h₁ => ?_
  refine .bind (h₁.leaf op "") fun p t₂ h₂ => ?_
  exact h₂.node [_, _] .constantExpression

/-- A name that can be assigned to. -/
def Outline.lvalue (segments : List String) : Outline :=
  .node .variableLvalue "" [.node .hierarchicalIdentifier "" (segments.map (leaf .stringConst))]

private theorem says_lvalue (first : String) (more : List String) :
    (lvalue (first :: more)).Says (.name (first :: more)) :=
  says_wrapper rfl (says_name first more)

private theorem preStep_builds (op : StepTag) (first : String) (more : List String) :
    BuildsTerm (.preStep op (first :: more)) (.unary op (.name (first :: more))) := by
  have hop : op.val.unaryOp?.isSome = true := by
    obtain ⟨op, hop⟩ := op
    revert hop
    cases op <;> simp [Tag.postOp?, Tag.unaryOp?]
  refine ⟨node .expression "" [node .incOrDecExpression "" [leaf op "", lvalue (first :: more)]],
    rfl, says_wrapper rfl (says_unary hop (says_lvalue first more)), fun t roots h => ?_⟩
  refine .bind (h.leaf op "") fun p t₁ h₁ => ?_
  refine .bind (h₁.lvalue (first :: more)) fun l t₂ h₂ => ?_
  refine .bind (h₂.swap.node [_, _] .incOrDecExpression) fun s t₃ h₃ => ?_
  exact h₃.node [_] .expression

private theorem postStep_builds (op : StepTag) (first : String) (more : List String) :
    BuildsTerm (.postStep op (first :: more)) (.lvalue (.name (first :: more)) (some op)) := by
  refine ⟨node .expression "" [node .incOrDecExpression "" [lvalue (first :: more), leaf op ""]],
    rfl, says_wrapper rfl (says_step op.property (says_lvalue first more)), fun t roots h => ?_⟩
  refine .bind (h.lvalue (first :: more)) fun l t₁ h₁ => ?_
  refine .bind (h₁.leaf op "") fun p t₂ h₂ => ?_
  refine .bind (h₂.swap.node [_, _] .incOrDecExpression) fun s t₃ h₃ => ?_
  exact h₃.node [_] .expression

private theorem systemCall_builds (name : String) : BuildsTerm (.systemCall name) (.call name) := by
  refine ⟨primary [node .systemTask "" [node .systemTaskNames "" [leaf .stringConst name]]], rfl,
    says_primary (says_wrapper rfl says_call), fun t roots h => ?_⟩
  refine .bind (h.leaf .stringConst name) fun n t₁ h₁ => ?_
  refine .bind (h₁.node [_] .systemTaskNames) fun s t₂ h₂ => ?_
  refine .bind (h₂.node [_] .systemTask) fun c t₃ h₃ => ?_
  exact h₃.primary [_]

/-- From any tree, roots are added that say `rs`, and the roots at hand stay. -/
def BuildsAll (x : Build (List NodeId)) (rs : List Reading) : Prop :=
  ∃ os : List Outline, List.Forall₂ Says os rs ∧
    ∀ (t : Tree) (roots : List (NodeId × Outline)), t.Holds roots → GivesAll x t os roots

private theorem concat_builds {xs : Build (List NodeId)} {rs : List Reading}
    (hxs : BuildsAll xs rs) : BuildsTerm (do .concat (← xs)) (.concat .concatenation rs) := by
  obtain ⟨os, hos, hxs⟩ := hxs
  refine ⟨primary [node .concatenation "" os], rfl,
    says_primary (says_concat (.inl rfl) hos), fun t roots h => ?_⟩
  refine GivesAll.bind (hxs t roots h) fun taken t₁ hs h₁ => ?_
  rw [← hs]
  refine .bind (h₁.node taken .concatenation) fun c t₂ h₂ => ?_
  exact h₂.primary [_]

private theorem multiConcat_builds {xs : Build (List NodeId)} {rs : List Reading}
    (hx : BuildsTerm x a) (hxs : BuildsAll xs rs) :
    BuildsTerm (do let n ← x; .multiConcat n (← xs))
      (.concat .multipleConcatenation (a :: rs)) := by
  obtain ⟨o, _, ho, hx⟩ := hx
  obtain ⟨os, hos, hxs⟩ := hxs
  refine ⟨primary [node .multipleConcatenation "" (o :: os)], rfl,
    says_primary (says_concat (.inr rfl) (.cons ho hos)), fun t roots h => ?_⟩
  refine .bind (hx t roots h) fun n t₁ h₁ => ?_
  refine GivesAll.bind (hxs t₁ _ h₁) fun taken t₂ hs h₂ => ?_
  rw [← hs]
  refine .bind ((h₂.perm List.perm_middle).node ((n, o) :: taken)
    .multipleConcatenation) fun c t₃ h₃ => ?_
  exact h₃.primary [_]

end Builds

theorem Tag.isLiteral_of_scalarBit {tag : Tag} (h : tag.scalarBit?.isSome = true) :
    tag.isLiteral = true := by
  unfold Tag.isLiteral
  split
  case h_5 => exact h
  all_goals rfl

mutual

theorem Term.builds : ∀ e : Term, BuildsTerm e.build e.reading
  | .int text => literal_builds rfl text
  | .real text => literal_builds rfl text
  | .str text => literal_builds rfl text
  | .scalar tag => literal_builds (Tag.isLiteral_of_scalarBit tag.property) _
  | .null => literal_builds rfl "null"
  | .ident first more => ident_builds first more
  | .bitSelect name index => bitSelect_builds name index.builds
  | .partSelect name left right => partSelect_builds name left.builds right.builds
  | .indexedSelect name base up width => indexedSelect_builds name up base.builds width.builds
  | .binary left op right => binary_builds op left.builds right.builds
  | .paren operand => paren_builds operand.builds
  | .unary op operand => unary_builds op operand.builds
  | .preStep op first more => preStep_builds op first more
  | .postStep op first more => postStep_builds op first more
  | .systemCall name => systemCall_builds name
  | .concat operands => concat_builds (Term.buildAll_builds operands)
  | .multiConcat count operands => multiConcat_builds count.builds (Term.buildAll_builds operands)

theorem Term.buildAll_builds : ∀ es : List Term, BuildsAll (Term.buildAll es) (Term.readings es)
  | [] => ⟨[], .nil, fun _ _ h => .nil h⟩
  | e :: rest => by
    obtain ⟨o, _, ho, hx⟩ := e.builds
    obtain ⟨os, hos, hxs⟩ := Term.buildAll_builds rest
    exact ⟨o :: os, .cons ho hos, fun t roots h => .cons (hx t roots h) fun n t₁ h₁ => hxs t₁ _ h₁⟩

end

/-! ## Events -/

abbrev BuildsEvent (x : Build NodeId) (r : Reading) : Prop :=
  Builds x (· == .eventExpression) r

private theorem edge_builds (op : PrefixTag) (signal : String) :
    BuildsEvent (.edge op signal) (.unary op (.name [signal])) := by
  have hsignal : (node .expression "" [node .primary "" [leaf .stringConst signal]]).Says
      (.name [signal]) :=
    says_wrapper rfl (says_name signal [])
  refine ⟨node .eventExpression "" [leaf op "",
      node .expression "" [node .primary "" [leaf .stringConst signal]]], rfl,
    says_unary op.property hsignal, fun t roots h => ?_⟩
  refine .bind (h.leaf op "") fun p t₁ h₁ => ?_
  refine .bind (h₁.leaf .stringConst signal) fun s t₂ h₂ => ?_
  refine .bind (h₂.node [_] .primary) fun q t₃ h₃ => ?_
  refine .bind (h₃.node [_] .expression) fun e t₄ h₄ => ?_
  exact h₄.swap.node [_, _] .eventExpression

/-- An item of an event list: a node that is there, or a new operator. -/
def Tree.Build.item : NodeId ⊕ Tag → Build NodeId
  | .inl n => pure n
  | .inr op => .leaf op ""

theorem Tree.Build.events_eq (items : List (NodeId ⊕ Tag)) :
    Build.events items = items.mapM Build.item >>= Build.node .eventExpression := rfl

theorem Tree.Holds.items {t : Tree} {roots : List (NodeId × Outline)}
    {taken : List (Tag × NodeId × Outline)} (h : t.Holds (taken.map (·.2) ++ roots)) :
    GivesAll ((taken.flatMap fun p => [.inr p.1, .inl p.2.1]).mapM Build.item) t
      (inTurn (taken.map fun p => (p.1, p.2.2))) roots := by
  induction taken generalizing t roots with
  | nil => exact .nil h
  | cons p taken ih =>
    have hperm (q : NodeId × Outline) (nodes : List (NodeId × Outline)) :
        (nodes ++ q :: p.2 :: roots).Perm (q :: p.2 :: (nodes ++ roots)) :=
      List.perm_middle.trans (List.perm_middle.cons q)
    have hop : Gives (Build.leaf p.1 "") t (Outline.leaf p.1 "") _ := h.leaf p.1 ""
    obtain ⟨more, hf, hs, hh⟩ := ih (hop.perm (hperm _ (taken.map (·.2))).symm)
    simp only [List.flatMap_cons, List.cons_append, List.nil_append, List.mapM_cons]
    refine ⟨(_, Outline.leaf p.1 "") :: p.2 :: more, ?_, ?_, hh.perm (hperm _ more)⟩
    · exact congrArg (fun ns => _ :: p.2.1 :: ns) hf
    · simp [hs, inTurn]

theorem Tree.Holds.events {t : Tree} {n : NodeId} {o : Outline} {roots : List (NodeId × Outline)}
    {taken : List (Tag × NodeId × Outline)} (h : t.Holds (taken.map (·.2) ++ (n, o) :: roots)) :
    Gives (Build.events (.inl n :: taken.flatMap fun p => [.inr p.1, .inl p.2.1])) t
      (.node .eventExpression "" (o :: inTurn (taken.map fun p => (p.1, p.2.2)))) roots := by
  have hall : GivesAll ((.inl n :: taken.flatMap fun p => [.inr p.1, .inl p.2.1]).mapM Build.item) t
      (o :: inTurn (taken.map fun p => (p.1, p.2.2))) roots := by
    rw [List.mapM_cons]
    obtain ⟨more, hf, hs, hh⟩ := h.items
    exact ⟨(n, o) :: more, congrArg (n :: ·) hf, by rw [List.map_cons, hs],
      hh.perm List.perm_middle⟩
  rw [Build.events_eq]
  refine GivesAll.bind hall fun taken' t₁ hs h₁ => ?_
  rw [← hs]
  exact h₁.node taken' .eventExpression

/-- From any tree, roots are added that say `rs`, each behind its operator, and the roots at hand
stay. -/
def BuildsRest (x : Build (List (Tag × NodeId))) (rs : List (Tag × Reading)) : Prop :=
  ∃ items : List (Tag × Outline), (∀ item ∈ items, item.1.combinator?.isSome = true) ∧
    List.Forall₂ (fun item r => item.1 = r.1 ∧ item.2.Says r.2) items rs ∧
    ∀ (t : Tree) (roots : List (NodeId × Outline)), t.Holds roots →
      ∃ taken : List (Tag × NodeId × Outline), (x t).1 = taken.map (fun p => (p.1, p.2.1)) ∧
        taken.map (fun p => (p.1, p.2.2)) = items ∧ (x t).2.Holds (taken.map (·.2) ++ roots)

private theorem events_builds {x : Build NodeId} {xs : Build (List (Tag × NodeId))} {a : Reading}
    {rs : List (Tag × Reading)} (hx : BuildsEvent x a) (hxs : BuildsRest xs rs) :
    BuildsEvent (do
      let n ← x
      let items ← xs
      .events (.inl n :: items.flatMap fun item => [.inr item.1, .inl item.2])) (.events a rs) := by
  obtain ⟨o, hc, ho, hx⟩ := hx
  obtain ⟨items, hop, hos, hxs⟩ := hxs
  obtain ⟨tag, text, os⟩ := o
  obtain rfl : tag = .eventExpression := by simpa [Outline.tag] using hc
  refine ⟨node .eventExpression "" (node .eventExpression text os :: inTurn items), rfl,
    says_events hop ho hos, fun t roots h => ?_⟩
  refine .bind (hx t roots h) fun n t₁ h₁ => ?_
  obtain ⟨taken, hf, rfl, h₂⟩ := hxs t₁ _ h₁
  change Gives (Build.events (.inl n :: (xs t₁).1.flatMap fun item => [.inr item.1, .inl item.2]))
    (xs t₁).2 _ roots
  rw [hf, List.flatMap_map]
  exact h₂.events

mutual

theorem EventTerm.builds : ∀ e : EventTerm, BuildsEvent e.build e.reading
  | .edge op signal => edge_builds op signal
  | .events first rest => events_builds first.builds (EventTerm.buildRest_builds rest)

theorem EventTerm.buildRest_builds : ∀ es : List (CombinatorTag × EventTerm),
    BuildsRest (EventTerm.buildRest es) (EventTerm.readingRest es)
  | [] => ⟨[], nofun, .nil, fun _ _ h => ⟨[], rfl, rfl, h⟩⟩
  | (op, e) :: rest => by
    obtain ⟨o, _, ho, hx⟩ := e.builds
    obtain ⟨items, hop, hos, hxs⟩ := EventTerm.buildRest_builds rest
    refine ⟨(op.val, o) :: items, ?_, .cons ⟨rfl, ho⟩ hos, fun t roots h => ?_⟩
    · exact List.forall_mem_cons.mpr ⟨op.property, hop⟩
    · obtain ⟨taken, hf, hs, hh⟩ := hxs _ _ (hx t roots h)
      refine ⟨(op.val, (e.build t).1, o) :: taken, ?_, ?_, hh.perm List.perm_middle⟩
      · exact congrArg ((op.val, (e.build t).1) :: ·) hf
      · rw [List.map_cons, hs]

end

/-! ## Reading back -/

theorem Builds.read_eq {x : Build NodeId} {kind : Tag → Bool} {r : Reading} (hx : Builds x kind r)
    {t : Tree} (h : t.Linked) : (x t).2.read (x t).1 = r := by
  obtain ⟨o, _, ho, hx⟩ := hx
  have hh := hx t [] (.nil h)
  exact hh.linked.reads ho (hh.outline List.mem_cons_self)

/-- Whatever was built before, the node that stands for a term reads as the term without its
parentheses, and that of an event as the event. -/
theorem read_build {t : Tree} (h : t.Built) :
    (∀ e : Term, (e.build t).2.read (e.build t).1 = e.reading) ∧
      ∀ e : EventTerm, (e.build t).2.read (e.build t).1 = e.reading :=
  ⟨fun e => e.builds.read_eq h.linked, fun e => e.builds.read_eq h.linked⟩

/-- `{2{-(top.w), w[i++:((3))]}}` -/
def nestedTerm : Term :=
  .multiConcat (.int "2") [.unary ⟨.unaryMinus, rfl⟩ (.paren (.ident "top" ["w"])),
    .partSelect "w" (.postStep ⟨.incDecPlusPlus, rfl⟩ "i" []) (.paren (.paren (.int "3")))]

/-- `posedge clk or negedge rst`, the second event a list of its own. -/
def twoEdges : EventTerm :=
  .events (.edge ⟨.edgePosedge, rfl⟩ "clk")
    [(⟨.orOperator, rfl⟩, .events (.edge ⟨.edgeNegedge, rfl⟩ "rst") [])]

theorem read_build_linkedTwice :
    Tree.linkedTwice.Built ∧
      (nestedTerm.build Tree.linkedTwice).2.read (nestedTerm.build Tree.linkedTwice).1 =
        .concat .multipleConcatenation [.literal .intConst "2",
          .unary .unaryMinus (.name ["top", "w"]),
          .part ["w"] (.lvalue (.name ["i"]) (some .incDecPlusPlus)) (.literal .intConst "3")] ∧
      (twoEdges.build Tree.linkedTwice).2.read (twoEdges.build Tree.linkedTwice).1 =
        .events (.unary .edgePosedge (.name ["clk"]))
          [(.orOperator, .events (.unary .edgeNegedge (.name ["rst"])) [])] := by
  obtain ⟨hterm, hevent⟩ := read_build Tree.linkedTwice_built
  exact ⟨Tree.linkedTwice_built, hterm nestedTerm, hevent twoEdges⟩

end HdlExpr
