import EbuildGraph.Dependency.Filter
import EbuildGraph.Proofs.Dependency.RefusedGroups

/-!
# The part of a value about one package

When a value is cut down to one package, a leaf about that package stays in all the groups around
it, and a group without such a leaf is left out.  A group that counts its members is refused
wherever it stands, also where nothing below it is about the package.

Main definitions:

- {lit}`Expr.placedLeaves`: the leaves of an expression with the groups around each of them.
- {lit}`Expr.IsPartOf`: an expression with some members of its groups left out.
- {lit}`Expr.IsAbout`: what a pass that cuts down to a package leaves as it is.
- {lit}`Spec.IsProjection`: what the part of a value about a package is.

Main results:

- Theorem {lit}`Expr.filterFor_outcome`: which group is refused.
- Theorem {lit}`Expr.placedLeaves_filterFor`: which leaves are left, and where.
- Theorem {lit}`Expr.isPartOf_filterFor`: no leaf moves to another group.
- Theorem {lit}`Spec.filterFor_projects`: the outcomes for a whole value.
-/

namespace EbuildGraph
namespace Dependency
namespace Expr

variable {name : String}

/-! ## Leaves and the groups around them -/

/-- A group apart from its members: its operator, or its condition. -/
inductive Frame where
  | allOf
  | anyOf
  | exactlyOneOf
  | atMostOneOf
  | useConditional (flag : String) (expect : Bool)
deriving DecidableEq

/-- A leaf and the groups around it, from the outermost in. -/
abbrev PlacedLeaf := List Frame × Atom × Blocking

mutual

/-- The leaves of an expression from left to right, each with the groups around it; the expression
itself stands in the given groups. -/
def placedLeaves (around : List Frame) : Expr → List PlacedLeaf
  | allOf children => placedLeavesOfAll (around ++ [.allOf]) children
  | anyOf children => placedLeavesOfAll (around ++ [.anyOf]) children
  | exactlyOneOf children => placedLeavesOfAll (around ++ [.exactlyOneOf]) children
  | atMostOneOf children => placedLeavesOfAll (around ++ [.atMostOneOf]) children
  | useConditional flag expect children =>
    placedLeavesOfAll (around ++ [.useConditional flag expect]) children
  | package atom blocking => [(around, atom, blocking)]

/-- The leaves of each expression of a list with the groups around them. -/
def placedLeavesOfAll (around : List Frame) : List Expr → List PlacedLeaf
  | [] => []
  | e :: rest => e.placedLeaves around ++ placedLeavesOfAll around rest

end

theorem placedLeavesOfAll_append (around : List Frame) (es fs : List Expr) :
    placedLeavesOfAll around (es ++ fs) =
      placedLeavesOfAll around es ++ placedLeavesOfAll around fs := by
  induction es with
  | nil => rfl
  | cons e rest ih => simp [placedLeavesOfAll, ih]

/-- Without the groups around them, placed leaves are the leaves. -/
theorem map_placedLeavesOfAll {around : List Frame} {es : List Expr}
    (h : ∀ e ∈ es, (e.placedLeaves around).map Prod.snd = e.leaves) :
    (placedLeavesOfAll around es).map Prod.snd = leavesOfAll es := by
  induction es with
  | nil => rfl
  | cons e rest ih =>
    obtain ⟨he, hrest⟩ := List.forall_mem_cons.1 h
    rw [placedLeavesOfAll, List.map_append, he, ih hrest, leavesOfAll_cons]

/-- Apart from the groups around them these are the leaves. -/
theorem map_placedLeaves (around : List Frame) (e : Expr) :
    (e.placedLeaves around).map Prod.snd = e.leaves := by
  induction e generalizing around with
  | allOf es ih | anyOf es ih | exactlyOneOf es ih | atMostOneOf es ih
  | useConditional flag expect es ih => exact map_placedLeavesOfAll fun e he => ih e he _
  | package atom blocking => rfl

/-! ## Parts of an expression -/

/-- The first expression is the second with some members of its groups left out; every group that
is left stands for a group of the same kind and, where it is conditional, of the same
condition. -/
inductive IsPartOf : Expr → Expr → Prop where
  | allOf {es fs : List Expr} (h : List.SublistForall₂ IsPartOf es fs) :
      IsPartOf (allOf es) (allOf fs)
  | anyOf {es fs : List Expr} (h : List.SublistForall₂ IsPartOf es fs) :
      IsPartOf (anyOf es) (anyOf fs)
  | exactlyOneOf {es fs : List Expr} (h : List.SublistForall₂ IsPartOf es fs) :
      IsPartOf (exactlyOneOf es) (exactlyOneOf fs)
  | atMostOneOf {es fs : List Expr} (h : List.SublistForall₂ IsPartOf es fs) :
      IsPartOf (atMostOneOf es) (atMostOneOf fs)
  | useConditional {flag : String} {expect : Bool} {es fs : List Expr}
      (h : List.SublistForall₂ IsPartOf es fs) :
      IsPartOf (useConditional flag expect es) (useConditional flag expect fs)
  | package (atom : Atom) (blocking : Blocking) :
      IsPartOf (package atom blocking) (package atom blocking)

/-! ## Steps of the pass -/

/-- Of expressions one is kept if it has a part to keep, with the parts of those behind it. -/
theorem filterAllFor_cons_eq_ok_iff {e : Expr} {rest out : List Expr} :
    filterAllFor name (e :: rest) = .ok out ↔
      ∃ kept others, e.filterFor name = .ok kept ∧ filterAllFor name rest = .ok others ∧
        kept.toList ++ others = out := by
  rw [filterAllFor]
  cases e.filterFor name with
  | error err => simp
  | ok kept => simp [map_eq_ok_iff]

/-- Expressions are refused for the first of them that is. -/
theorem filterAllFor_cons_eq_error_iff {e : Expr} {rest : List Expr} {err : Error} :
    filterAllFor name (e :: rest) = .error err ↔
      e.filterFor name = .error err ∨
        (∃ kept, e.filterFor name = .ok kept) ∧ filterAllFor name rest = .error err := by
  rw [filterAllFor]
  cases e.filterFor name with
  | error cause => simp
  | ok kept => simp [map_eq_error_iff]

/-- Each expression that is left is left of a member. -/
theorem exists_of_mem_filterAllFor {es out : List Expr} (h : filterAllFor name es = .ok out)
    {x : Expr} (hx : x ∈ out) : ∃ e ∈ es, e.filterFor name = .ok (some x) := by
  induction es generalizing out with
  | nil =>
    obtain rfl := Except.ok.inj h
    exact absurd hx List.not_mem_nil
  | cons e rest ih =>
    obtain ⟨kept, others, hkept, hothers, rfl⟩ := filterAllFor_cons_eq_ok_iff.1 h
    rcases List.mem_append.1 hx with hx | hx
    · obtain rfl := Option.mem_toList.1 hx
      exact ⟨e, List.mem_cons_self, hkept⟩
    · obtain ⟨c, hc, hcx⟩ := ih hothers hx
      exact ⟨c, List.mem_cons_of_mem e hc, hcx⟩

/-- What holds of the part kept of every expression holds of all parts kept. -/
theorem forall_mem_of_filterAllFor {p : Expr → Prop} {es out : List Expr}
    (h : ∀ e ∈ es, ∀ {x : Expr}, e.filterFor name = .ok (some x) → p x)
    (hout : filterAllFor name es = .ok out) : ∀ x ∈ out, p x := by
  intro x hx
  obtain ⟨e, he, hex⟩ := exists_of_mem_filterAllFor hout hx
  exact h e he hex

/-- A group is left unless nothing is left of its members. -/
theorem unlessEmpty_eq_some_iff {group : List Expr → Expr} {members : List Expr} {x : Expr} :
    unlessEmpty group members = some x ↔ members ≠ [] ∧ group members = x := by
  cases members <;> simp [unlessEmpty]

/-! ## Groups that are refused -/

/-- The first node of a list that is a group which counts its members. -/
def firstCounted? (nodes : List Expr) : Option Expr :=
  nodes.find? (decide ·.IsCounted)

/-- A node that does not count its members is passed by. -/
theorem firstCounted?_cons_of_not {e : Expr} {es : List Expr} (h : ¬ e.IsCounted) :
    firstCounted? (e :: es) = firstCounted? es :=
  List.find?_cons_of_neg (by simpa using h)

/-- A group that counts its members is looked for in one expression after another. -/
theorem firstCounted?_nodesOfAll_cons (e : Expr) (rest : List Expr) :
    firstCounted? (nodesOfAll (e :: rest)) =
      (firstCounted? e.nodes).or (firstCounted? (nodesOfAll rest)) :=
  List.find?_append

/-- A list passes when no node of it counts its members, and else the first such node is named. -/
theorem filterAllFor_outcome {es : List Expr}
    (h : ∀ e ∈ es, (firstCounted? e.nodes = none ∧ ∃ kept, e.filterFor name = .ok kept) ∨
      ∃ g, firstCounted? e.nodes = some g ∧
        e.filterFor name = .error (.ambiguousFilter name g.text)) :
    (firstCounted? (nodesOfAll es) = none ∧ ∃ out, filterAllFor name es = .ok out) ∨
      ∃ g, firstCounted? (nodesOfAll es) = some g ∧
        filterAllFor name es = .error (.ambiguousFilter name g.text) := by
  induction es with
  | nil => exact Or.inl ⟨rfl, [], rfl⟩
  | cons e rest ih =>
    obtain ⟨he, hrest⟩ := List.forall_mem_cons.1 h
    rw [firstCounted?_nodesOfAll_cons]
    rcases he with ⟨hnone, kept, hkept⟩ | ⟨g, hg, herr⟩
    · rw [hnone, Option.none_or]
      rcases ih hrest with ⟨hnone', others, hothers⟩ | ⟨g, hg, herr⟩
      · exact Or.inl ⟨hnone', _, filterAllFor_cons_eq_ok_iff.2 ⟨_, _, hkept, hothers, rfl⟩⟩
      · exact Or.inr ⟨g, hg, filterAllFor_cons_eq_error_iff.2 (Or.inr ⟨⟨kept, hkept⟩, herr⟩)⟩
    · rw [hg, Option.some_or]
      exact Or.inr ⟨g, rfl, filterAllFor_cons_eq_error_iff.2 (Or.inl herr)⟩

/-- The pass succeeds where no group counts its members, and else names the first that does. -/
theorem filterFor_outcome (name : String) (e : Expr) :
    (firstCounted? e.nodes = none ∧ ∃ kept, e.filterFor name = .ok kept) ∨
      ∃ g, firstCounted? e.nodes = some g ∧
        e.filterFor name = .error (.ambiguousFilter name g.text) := by
  induction e with
  | allOf es ih | anyOf es ih | useConditional flag expect es ih =>
    rw [nodes, firstCounted?_cons_of_not (by simp [IsCounted, kind])]
    rcases filterAllFor_outcome ih with ⟨hnone, out, hout⟩ | ⟨g, hg, herr⟩
    · exact Or.inl ⟨hnone, _, map_eq_ok_iff.2 ⟨out, hout, rfl⟩⟩
    · exact Or.inr ⟨g, hg, map_eq_error_iff.2 herr⟩
  | exactlyOneOf es ih | atMostOneOf es ih => exact Or.inr ⟨_, rfl, rfl⟩
  | package atom blocking => exact Or.inl ⟨rfl, _, rfl⟩

/-! ## What is left -/

/-- Whether a leaf is about a package. -/
def isLeafOf (name : String) (leaf : Atom × Blocking) : Bool :=
  leaf.1.name == name

/-- Of the placed leaves of expressions those of a name are kept when they are of each expression.
-/
theorem placedLeaves_filterAllFor {around : List Frame} {es out : List Expr}
    (h : ∀ e ∈ es, ∀ kept, e.filterFor name = .ok kept →
      placedLeavesOfAll around kept.toList =
        (e.placedLeaves around).filter (isLeafOf name ·.2))
    (hout : filterAllFor name es = .ok out) :
    placedLeavesOfAll around out =
      (placedLeavesOfAll around es).filter (isLeafOf name ·.2) := by
  induction es generalizing out with
  | nil =>
    obtain rfl := Except.ok.inj hout
    rfl
  | cons e rest ih =>
    obtain ⟨he, hrest⟩ := List.forall_mem_cons.1 h
    obtain ⟨kept, others, hkept, hothers, rfl⟩ := filterAllFor_cons_eq_ok_iff.1 hout
    rw [placedLeavesOfAll_append, he kept hkept, ih hrest hothers, placedLeavesOfAll,
      List.filter_append]

/-- A group of what is left of its members has the leaves of these. -/
theorem placedLeavesOfAll_unlessEmpty {group : List Expr → Expr} {around inside : List Frame}
    (hgroup : ∀ members, (group members).placedLeaves around = placedLeavesOfAll inside members)
    (members : List Expr) :
    placedLeavesOfAll around (unlessEmpty group members).toList =
      placedLeavesOfAll inside members := by
  cases members with
  | nil => rfl
  | cons e rest => simp [unlessEmpty, placedLeavesOfAll, hgroup]

/-- The leaves about the package are left, in their order and in the groups around them. -/
theorem placedLeaves_filterFor {e : Expr} {kept : Option Expr}
    (h : e.filterFor name = .ok kept) (around : List Frame) :
    placedLeavesOfAll around kept.toList =
      (e.placedLeaves around).filter (isLeafOf name ·.2) := by
  induction e generalizing kept around with
  | allOf es ih | anyOf es ih | useConditional flag expect es ih =>
    obtain ⟨out, hout, rfl⟩ := map_eq_ok_iff.1 h
    rw [placedLeavesOfAll_unlessEmpty (fun _ => rfl), placedLeaves,
      placedLeaves_filterAllFor (fun e he kept hkept => ih e he hkept _) hout]
  | exactlyOneOf es ih | atMostOneOf es ih => cases h
  | package atom blocking =>
    obtain rfl := Except.ok.inj h
    by_cases hname : atom.name = name
    · simp [placedLeavesOfAll, placedLeaves, isLeafOf, hname]
    · simp [placedLeavesOfAll, placedLeaves, isLeafOf, hname]

/-- The parts kept of expressions are parts of some of them, in the same order. -/
theorem sublistForall₂_filterAllFor {es out : List Expr}
    (h : ∀ e ∈ es, ∀ x, e.filterFor name = .ok (some x) → IsPartOf x e)
    (hout : filterAllFor name es = .ok out) : List.SublistForall₂ IsPartOf out es := by
  induction es generalizing out with
  | nil =>
    obtain rfl := Except.ok.inj hout
    exact .nil
  | cons e rest ih =>
    obtain ⟨he, hrest⟩ := List.forall_mem_cons.1 h
    obtain ⟨kept, others, hkept, hothers, rfl⟩ := filterAllFor_cons_eq_ok_iff.1 hout
    cases kept with
    | none => exact .cons_right (ih hrest hothers)
    | some x => exact .cons (he x hkept) (ih hrest hothers)

/-- What is left of a group is a part of it when parts of its members make a part of it. -/
theorem isPartOf_of_unlessEmpty {group : List Expr → Expr} {es : List Expr} {x : Expr}
    (hgroup : ∀ {out : List Expr}, List.SublistForall₂ IsPartOf out es →
      IsPartOf (group out) (group es))
    (ih : ∀ e ∈ es, ∀ {x : Expr}, e.filterFor name = .ok (some x) → IsPartOf x e)
    (h : (filterAllFor name es).map (unlessEmpty group) = .ok (some x)) :
    IsPartOf x (group es) := by
  obtain ⟨out, hout, hx⟩ := map_eq_ok_iff.1 h
  obtain ⟨_, rfl⟩ := unlessEmpty_eq_some_iff.1 hx
  exact hgroup (sublistForall₂_filterAllFor (fun e he _ => ih e he) hout)

/-- What is left of an expression is a part of it. -/
theorem isPartOf_filterFor {e x : Expr} (h : e.filterFor name = .ok (some x)) :
    IsPartOf x e := by
  induction e generalizing x with
  | allOf es ih => exact isPartOf_of_unlessEmpty .allOf ih h
  | anyOf es ih => exact isPartOf_of_unlessEmpty .anyOf ih h
  | exactlyOneOf es ih | atMostOneOf es ih => cases h
  | useConditional flag expect es ih => exact isPartOf_of_unlessEmpty .useConditional ih h
  | package atom blocking =>
    by_cases hname : atom.name = name
    · obtain rfl : package atom blocking = x := by simpa [filterFor, hname] using h
      exact .package atom blocking
    · simp [filterFor, hname] at h

/-! ## What is left as it is -/

/-- The expression is only about a package: its leaves are, none of its groups is empty, and none
counts its members. -/
structure IsAbout (name : String) (e : Expr) : Prop where
  named : ∀ leaf ∈ e.leaves, isLeafOf name leaf = true
  uncounted : ∀ g ∈ e.nodes, ¬ g.IsCounted
  filled : ∀ g ∈ e.nodes, g.kind ≠ .package → g.children ≠ []

/-- A group is about a package if it does not count its members, has some, and all of them are about
the package. -/
theorem isAbout_iff {e : Expr} (h : e.kind ≠ .package) :
    e.IsAbout name ↔ ¬ e.IsCounted ∧ e.children ≠ [] ∧ ∀ c ∈ e.children, c.IsAbout name := by
  constructor
  · rintro ⟨hnamed, huncounted, hfilled⟩
    rw [leaves_of_kind_ne h] at hnamed
    obtain ⟨hroot, hchildren⟩ := forall_mem_nodes_iff.1 huncounted
    obtain ⟨hrootFilled, hchildrenFilled⟩ := forall_mem_nodes_iff.1 hfilled
    refine ⟨hroot, hrootFilled h, fun c hc => ⟨fun leaf hleaf => ?_, hchildren c hc,
      hchildrenFilled c hc⟩⟩
    exact hnamed leaf (mem_leavesOfAll_iff.2 ⟨c, hc, hleaf⟩)
  · rintro ⟨huncounted, hfilled, hchildren⟩
    refine ⟨fun leaf hleaf => ?_,
      forall_mem_nodes_iff.2 ⟨huncounted, fun c hc => (hchildren c hc).uncounted⟩,
      forall_mem_nodes_iff.2 ⟨fun _ => hfilled, fun c hc => (hchildren c hc).filled⟩⟩
    rw [leaves_of_kind_ne h] at hleaf
    obtain ⟨c, hc, hleaf⟩ := mem_leavesOfAll_iff.1 hleaf
    exact (hchildren c hc).named leaf hleaf

/-- A leaf is about the package that it names. -/
theorem isAbout_package_iff {atom : Atom} {blocking : Blocking} :
    (package atom blocking).IsAbout name ↔ atom.name = name := by
  constructor
  · intro h
    simpa [isLeafOf] using h.named (atom, blocking) List.mem_cons_self
  · intro h
    exact ⟨by simpa [leaves, isLeafOf] using h, by simp [nodes, IsCounted, kind],
      by simp [nodes, kind]⟩

/-- What is left of an expression is only about the package. -/
theorem isAbout_filterFor {e x : Expr} (h : e.filterFor name = .ok (some x)) :
    x.IsAbout name := by
  induction e generalizing x with
  | allOf es ih | anyOf es ih | useConditional flag expect es ih =>
    obtain ⟨out, hout, hx⟩ := map_eq_ok_iff.1 h
    obtain ⟨hfilled, rfl⟩ := unlessEmpty_eq_some_iff.1 hx
    exact (isAbout_iff (by simp [kind])).2
      ⟨by simp [IsCounted, kind], hfilled, forall_mem_of_filterAllFor ih hout⟩
  | exactlyOneOf es ih | atMostOneOf es ih => cases h
  | package atom blocking =>
    by_cases hname : atom.name = name
    · obtain rfl : package atom blocking = x := by simpa [filterFor, hname] using h
      exact isAbout_package_iff.2 hname
    · simp [filterFor, hname] at h

/-- Expressions of which everything is kept stay as they are. -/
theorem filterAllFor_eq_self {es : List Expr} (h : ∀ e ∈ es, e.filterFor name = .ok (some e)) :
    filterAllFor name es = .ok es := by
  induction es with
  | nil => rfl
  | cons e rest ih =>
    obtain ⟨he, hrest⟩ := List.forall_mem_cons.1 h
    exact filterAllFor_cons_eq_ok_iff.2 ⟨some e, rest, he, ih hrest, rfl⟩

/-- What is only about the package is left as it is. -/
theorem filterFor_of_isAbout {e : Expr} (h : e.IsAbout name) :
    e.filterFor name = .ok (some e) := by
  induction e with
  | allOf es ih | anyOf es ih | useConditional flag expect es ih =>
    obtain ⟨_, hfilled, hchildren⟩ := (isAbout_iff (by simp [kind])).1 h
    have hself : filterAllFor name es = .ok es :=
      filterAllFor_eq_self fun c hc => ih c hc (hchildren c hc)
    exact map_eq_ok_iff.2 ⟨es, hself, unlessEmpty_eq_some_iff.2 ⟨hfilled, rfl⟩⟩
  | exactlyOneOf es ih | atMostOneOf es ih =>
    exact absurd (by simp [IsCounted, kind]) ((isAbout_iff (by simp [kind])).1 h).1
  | package atom blocking => simp [filterFor, isAbout_package_iff.1 h]

end Expr

/-! ## Whole values -/

namespace Spec

/-- The leaves of a value from left to right, each with the groups around it. -/
def placedLeaves (d : Spec) : List Expr.PlacedLeaf :=
  Expr.placedLeavesOfAll [] d.children

/-- What the part of a value about a package is: exactly the leaves about it, each in the groups
around it, in groups that are parts of those of the value and not empty.  Cutting it down again
changes nothing. -/
structure IsProjection (name : String) (d part : Spec) : Prop where
  leaves : part.leaves = d.leaves.filter (Expr.isLeafOf name)
  placed : part.placedLeaves = d.placedLeaves.filter (Expr.isLeafOf name ·.2)
  isPart : part.asExpr.IsPartOf d.asExpr
  filled : ∀ c ∈ part.children, ∀ g ∈ c.nodes, g.kind ≠ .package → g.children ≠ []
  stable : part.filterFor name = .ok part

variable {name : String} {d part : Spec}

/-- The part kept of a dependency is made of the parts kept of its members. -/
theorem filterFor_eq_ok_iff :
    d.filterFor name = .ok part ↔ Expr.filterAllFor name d.children = .ok part.children := by
  constructor
  · intro h
    obtain ⟨out, hout, rfl⟩ := map_eq_ok_iff.1 h
    exact hout
  · intro h
    exact map_eq_ok_iff.2 ⟨part.children, h, rfl⟩

/-- The placed leaves of the part kept are those of the name. -/
theorem placedLeaves_filterFor (h : d.filterFor name = .ok part) :
    part.placedLeaves = d.placedLeaves.filter (Expr.isLeafOf name ·.2) :=
  Expr.placedLeaves_filterAllFor (fun _ _ _ hkept => Expr.placedLeaves_filterFor hkept [])
    (filterFor_eq_ok_iff.1 h)

/-- The leaves of the part kept are those of the name. -/
theorem leaves_filterFor (h : d.filterFor name = .ok part) :
    part.leaves = d.leaves.filter (Expr.isLeafOf name) := by
  have hleaves : ∀ d : Spec, d.placedLeaves.map Prod.snd = d.leaves :=
    fun d => Expr.map_placedLeavesOfAll fun e _ => Expr.map_placedLeaves [] e
  rw [← hleaves part, placedLeaves_filterFor h, ← hleaves d, List.filter_map]
  rfl

/-- The pass succeeds where no group counts its members, and else names the first that does. -/
theorem filterFor_outcome (name : String) (d : Spec) :
    (Expr.firstCounted? d.asExpr.nodes = none ∧ ∃ part, d.filterFor name = .ok part) ∨
      ∃ g, Expr.firstCounted? d.asExpr.nodes = some g ∧
        d.filterFor name = .error (.ambiguousFilter name g.text) := by
  rw [asExpr, Expr.nodes,
    Expr.firstCounted?_cons_of_not (by simp [Expr.IsCounted, Expr.kind])]
  rcases Expr.filterAllFor_outcome fun e _ => Expr.filterFor_outcome name e with
    ⟨hnone, out, hout⟩ | ⟨g, hg, herr⟩
  · exact Or.inl ⟨hnone, ⟨out⟩, filterFor_eq_ok_iff.2 hout⟩
  · exact Or.inr ⟨g, hg, map_eq_error_iff.2 herr⟩

/-- The part kept of a dependency is its projection to the name. -/
theorem isProjection_of_filterFor (h : d.filterFor name = .ok part) :
    d.IsProjection name part := by
  have hall := filterFor_eq_ok_iff.1 h
  have habout : ∀ c ∈ part.children, c.IsAbout name :=
    Expr.forall_mem_of_filterAllFor (fun _ _ => Expr.isAbout_filterFor) hall
  exact {
    leaves := leaves_filterFor h
    placed := placedLeaves_filterFor h
    isPart := .allOf (Expr.sublistForall₂_filterAllFor (fun _ _ _ => Expr.isPartOf_filterFor) hall)
    filled := fun c hc => (habout c hc).filled
    stable := filterFor_eq_ok_iff.2
      (Expr.filterAllFor_eq_self fun c hc => Expr.filterFor_of_isAbout (habout c hc)) }

/-- Cutting a value down to a package fails exactly where a group of it counts its members, and
names the first such group.  Otherwise the leaves about the package are left, in the groups around
them. -/
theorem filterFor_projects (d : Spec) (name : String) :
    (∀ err, d.filterFor name = .error err →
      ∃ g, Expr.firstCounted? d.asExpr.nodes = some g ∧ err = .ambiguousFilter name g.text) ∧
    ((∃ err, d.filterFor name = .error err) ↔ ∃ g ∈ d.asExpr.nodes, g.IsCounted) ∧
    ∀ part, d.filterFor name = .ok part → d.IsProjection name part := by
  have hcounted : (∃ g, Expr.firstCounted? d.asExpr.nodes = some g) ↔
      ∃ g ∈ d.asExpr.nodes, g.IsCounted := by
    rw [Expr.firstCounted?, ← Option.isSome_iff_exists, List.find?_isSome]
    simp
  refine ⟨fun err herr => ?_, ?_, fun part => isProjection_of_filterFor⟩
  · rcases filterFor_outcome name d with ⟨_, part, hpart⟩ | ⟨g, hg, hnamed⟩
    · exact absurd (hpart.symm.trans herr) nofun
    · exact ⟨g, hg, Except.error.inj (herr.symm.trans hnamed)⟩
  · rw [← hcounted]
    rcases filterFor_outcome name d with ⟨hnone, part, hpart⟩ | ⟨g, hg, hnamed⟩
    · exact iff_of_false (by simp [hpart]) (by simp [hnone])
    · exact iff_of_true ⟨_, hnamed⟩ ⟨g, hg⟩

/-- A package in a choice, in a condition inside a choice, and next to others. -/
def sampleNested : Spec :=
  ⟨[.anyOf [.package (.ofName "b/b") .none, .package (.ofName "a/a") .none],
    .anyOf [.useConditional "c" false [.package (.ofName "a/a") .weak, .allOf []],
      .package (.ofName "d/d") .none],
    .allOf [.package (.ofName "d/d") .none]]⟩

/-- A choice that counts its members, none of which is about {lit}`a/a`. -/
def sampleUnrelated : Spec :=
  ⟨[.package (.ofName "a/a") .none,
    .anyOf [.package (.ofName "b/b") .none, .atMostOneOf [.package (.ofName "c/c") .none]]]⟩

/-- The two leaves about {lit}`a/a` stay in their choices and the condition, and the group about
{lit}`d/d` is left out.  A choice that counts its members is refused whatever it is about. -/
theorem filterFor_sampleNested :
    (∃ part, sampleNested.filterFor "a/a" = .ok part ∧ sampleNested.IsProjection "a/a" part ∧
      part.placedLeaves = [([.anyOf], .ofName "a/a", .none),
        ([.anyOf, .useConditional "c" false], .ofName "a/a", .weak)]) ∧
    ∃ err, sampleUnrelated.filterFor "a/a" = .error err ∧
      ∃ g, Expr.firstCounted? sampleUnrelated.asExpr.nodes = some g ∧
        err = .ambiguousFilter "a/a" g.text := by
  have hok : sampleNested.filterFor "a/a" = .ok
      ⟨[.anyOf [.package (.ofName "a/a") .none],
        .anyOf [.useConditional "c" false [.package (.ofName "a/a") .weak]]]⟩ := by rfl
  have herr : sampleUnrelated.filterFor "a/a" =
      .error (.ambiguousFilter "a/a" "?? ( c/c )") := by rfl
  exact ⟨⟨_, hok, (filterFor_projects sampleNested "a/a").2.2 _ hok, rfl⟩, _, herr,
    (filterFor_projects sampleUnrelated "a/a").1 _ herr⟩

end Spec
end Dependency
end EbuildGraph
