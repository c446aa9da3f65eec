import EbuildGraph.Dependency.Satisfaction
import EbuildGraph.Proofs.Dependency.Folding

/-!
# Simplification and meaning

Each fold keeps the truth value of the group that it folds, whatever the leaves stand
for.  So a simplified expression holds exactly when the expression does, and the same
packages and flags satisfy a value before and after it is simplified.

Main results:

- Theorems {lit}`holds_foldAllOf`, {lit}`holds_foldAnyOf`, {lit}`holds_foldExactlyOneOf`,
  {lit}`holds_foldAtMostOneOf` and {lit}`holds_foldConditional`: one step of simplification.
- Theorem {lit}`Expr.holds_simplify`: simplification of a whole expression.
- Theorem {lit}`Spec.isSatisfiedBy_simplify`: satisfaction of a simplified value.
-/

namespace EbuildGraph
namespace Dependency
namespace Expr

variable {leaf leaf' : Atom → Blocking → Bool} {flags flags' : NameSet}

/-! ## Truth of each constructor -/

/-- An all-of group holds when all its members do. -/
theorem holds_allOf_iff {es : List Expr} :
    (allOf es).holds leaf flags = true ↔ ∀ e ∈ es, e.holds leaf flags = true := by
  simp [holds, holdsAll_eq_map]

/-- An any-of group holds when one of its members does. -/
theorem holds_anyOf_iff {es : List Expr} :
    (anyOf es).holds leaf flags = true ↔ ∃ e ∈ es, e.holds leaf flags = true := by
  simp [holds, holdsAll_eq_map]

/-- The number of true entries among the truth values is the number of members that hold. -/
theorem count_holdsAll (es : List Expr) :
    (holdsAll leaf flags es).count true = es.countP (holds leaf flags) := by
  rw [holdsAll_eq_map, List.count_eq_countP, List.countP_map]
  apply List.countP_congr
  intro e _
  simp

/-- An exactly-one-of group holds when one member does and no other. -/
theorem holds_exactlyOneOf_iff {es : List Expr} :
    (exactlyOneOf es).holds leaf flags = true ↔ es.countP (holds leaf flags) = 1 := by
  simp [holds, count_holdsAll]

/-- An at-most-one-of group holds when no two members do. -/
theorem holds_atMostOneOf_iff {es : List Expr} :
    (atMostOneOf es).holds leaf flags = true ↔ es.countP (holds leaf flags) ≤ 1 := by
  simp [holds, count_holdsAll]

/-- A conditional group holds when its condition is not met or all its members hold. -/
theorem holds_useConditional_iff {flag : String} {expect : Bool} {es : List Expr} :
    (useConditional flag expect es).holds leaf flags = true ↔
      (flags.contains flag = expect → ∀ e ∈ es, e.holds leaf flags = true) := by
  by_cases h : flags.contains flag = expect <;> simp [holds, holdsAll_eq_map, h]

@[simp] theorem holds_true : true_.holds leaf flags = true := rfl

@[simp] theorem holds_false : false_.holds leaf flags = false := rfl

/-- A pass that keeps the truth of each member keeps the list of their truth values. -/
theorem holdsAll_map {pass : Expr → Expr} {es : List Expr}
    (h : ∀ e ∈ es, (pass e).holds leaf flags = e.holds leaf' flags') :
    holdsAll leaf flags (es.map pass) = holdsAll leaf' flags' es := by
  rw [holdsAll_eq_map, holdsAll_eq_map, List.map_map]
  exact List.map_congr_left h

/-! ## Truth of opened and reduced groups -/

/-- An expression holds when all does that it asks for side by side. -/
theorem holds_iff_forall_allOfChildren {e : Expr} :
    e.holds leaf flags = true ↔ ∀ c ∈ e.allOfChildren, c.holds leaf flags = true := by
  cases e with
  | allOf children => exact holds_allOf_iff
  | _ => simp [allOfChildren]

/-- Opening the all-of groups among the members of one keeps its truth. -/
theorem holds_allOf_openGroups (members : List Expr) :
    (allOf (openGroups members)).holds leaf flags = (allOf members).holds leaf flags := by
  rw [Bool.eq_iff_iff, holds_allOf_iff, holds_allOf_iff]
  constructor
  · intro h m hm
    apply holds_iff_forall_allOfChildren.2
    intro c hc
    exact h c (mem_openGroups_iff.2 ⟨m, hm, hc⟩)
  · intro h c hc
    obtain ⟨m, hm, hcm⟩ := mem_openGroups_iff.1 hc
    exact holds_iff_forall_allOfChildren.1 (h m hm) c hcm

/-- An all-of group around one member may be left out. -/
theorem holds_unwrapSingleton_allOf (members : List Expr) :
    (unwrapSingleton allOf members).holds leaf flags = (allOf members).holds leaf flags := by
  rcases unwrapSingleton_cases allOf members with ⟨e, rfl, heq⟩ | ⟨_, heq⟩
  · rw [heq, Bool.eq_iff_iff, holds_allOf_iff, List.forall_mem_singleton]
  · rw [heq]

/-- An any-of group around one member may be left out. -/
theorem holds_unwrapSingleton_anyOf (members : List Expr) :
    (unwrapSingleton anyOf members).holds leaf flags = (anyOf members).holds leaf flags := by
  rcases unwrapSingleton_cases anyOf members with ⟨e, rfl, heq⟩ | ⟨_, heq⟩
  · rw [heq, Bool.eq_iff_iff, holds_anyOf_iff]
    simp
  · rw [heq]

/-- The false constant does not count in an any-of group. -/
theorem holds_anyOf_dropFalse (members : List Expr) :
    (anyOf (dropFalse members)).holds leaf flags = (anyOf members).holds leaf flags := by
  rw [Bool.eq_iff_iff, holds_anyOf_iff, holds_anyOf_iff]
  constructor
  · rintro ⟨e, he, hholds⟩
    exact ⟨e, (mem_dropFalse_iff.1 he).1, hholds⟩
  · rintro ⟨e, he, hholds⟩
    have hne : e ≠ false_ := by
      rintro rfl
      simp at hholds
    exact ⟨e, mem_dropFalse_iff.2 ⟨he, hne⟩, hholds⟩

/-- As many members hold without the false constant. -/
theorem countP_holds_dropFalse (leaf : Atom → Blocking → Bool) (flags : NameSet)
    (members : List Expr) :
    (dropFalse members).countP (holds leaf flags) = members.countP (holds leaf flags) := by
  rw [dropFalse, List.countP_filter]
  apply List.countP_congr
  intro e _
  by_cases he : e = false_
  · simp [he]
  · simp [← Bool.not_eq_true, isFalse_iff, he]

/-- Every true constant among members is one that holds. -/
theorem count_true_le_countP_holds (leaf : Atom → Blocking → Bool) (flags : NameSet)
    (members : List Expr) :
    members.count true_ ≤ members.countP (holds leaf flags) := by
  apply List.countP_mono_left
  intro e _ he
  rw [eq_of_beq he, holds_true]

/-! ## Truth of folded groups -/

/-- Folding an all-of group keeps its truth. -/
theorem holds_foldAllOf (members : List Expr) :
    (foldAllOf members).holds leaf flags = (allOf members).holds leaf flags := by
  by_cases hfalse : false_ ∈ members
  · rw [foldAllOf_of_mem hfalse, Bool.eq_iff_iff, holds_allOf_iff]
    constructor
    · simp
    · intro h
      exact h false_ hfalse
  · rw [foldAllOf_of_not_mem hfalse, holds_unwrapSingleton_allOf, holds_allOf_openGroups]

/-- Folding an any-of group keeps its truth. -/
theorem holds_foldAnyOf (members : List Expr) :
    (foldAnyOf members).holds leaf flags = (anyOf members).holds leaf flags := by
  by_cases htrue : true_ ∈ members
  · rw [foldAnyOf_of_mem htrue, Bool.eq_iff_iff, holds_anyOf_iff]
    constructor
    · intro _
      exact ⟨true_, htrue, holds_true⟩
    · simp
  · rw [foldAnyOf_of_not_mem htrue, holds_unwrapSingleton_anyOf, holds_anyOf_dropFalse]

/-- Two members that are constantly true already are too many, and members that are
false do not count.  What is left of the group holds as the group does. -/
theorem holds_foldExactlyOneOf (members : List Expr) :
    (foldExactlyOneOf members).holds leaf flags = (exactlyOneOf members).holds leaf flags := by
  have hcount := countP_holds_dropFalse leaf flags members
  rw [Bool.eq_iff_iff, holds_exactlyOneOf_iff]
  by_cases htwo : 2 ≤ members.count true_
  · have hle := count_true_le_countP_holds leaf flags members
    rw [foldExactlyOneOf_of_two htwo]
    simp only [holds_false, Bool.false_eq_true, false_iff]
    omega
  · rcases hout : dropFalse members with _ | ⟨e, _ | ⟨e', rest⟩⟩
    · rw [foldExactlyOneOf_of_nil hout, ← hcount, hout]
      simp
    · rw [foldExactlyOneOf_of_one hout, ← hcount, hout, List.countP_singleton]
      simp
    · rw [foldExactlyOneOf_of_many (by omega) (by simp [hout]), holds_exactlyOneOf_iff, hcount]

/-- Folding an at-most-one-of group keeps its truth. -/
theorem holds_foldAtMostOneOf (members : List Expr) :
    (foldAtMostOneOf members).holds leaf flags = (atMostOneOf members).holds leaf flags := by
  have hcount := countP_holds_dropFalse leaf flags members
  rw [Bool.eq_iff_iff, holds_atMostOneOf_iff]
  by_cases htwo : 2 ≤ members.count true_
  · have hle := count_true_le_countP_holds leaf flags members
    rw [foldAtMostOneOf_of_two htwo]
    simp only [holds_false, Bool.false_eq_true, false_iff]
    omega
  · by_cases hfew : (dropFalse members).length ≤ 1
    · have hle := List.countP_le_length (p := holds leaf flags) (l := dropFalse members)
      rw [foldAtMostOneOf_of_few hfew]
      simp only [holds_true, true_iff]
      omega
    · rw [foldAtMostOneOf_of_many (by omega) (by omega), holds_atMostOneOf_iff, hcount]

/-- Folding a conditional group keeps its truth. -/
theorem holds_foldConditional (flag : String) (expect : Bool) (members : List Expr) :
    (foldConditional flag expect members).holds leaf flags =
      (useConditional flag expect members).holds leaf flags := by
  have hbody : (foldAllOf members).holds leaf flags = (allOf members).holds leaf flags :=
    holds_foldAllOf members
  rw [Bool.eq_iff_iff, holds_useConditional_iff, ← holds_allOf_iff, ← hbody]
  by_cases htrue : foldAllOf members = true_
  · rw [foldConditional_of_true htrue, htrue]
    simp
  · rw [foldConditional_of_ne_true htrue, holds_useConditional_iff,
      ← holds_iff_forall_allOfChildren]

/-! ## Truth of simplified expressions -/

/-- A simplified expression holds exactly when the expression holds. -/
theorem holds_simplify (e : Expr) : e.simplify.holds leaf flags = e.holds leaf flags := by
  induction e with
  | allOf children ih =>
    rw [simplify_allOf, holds_foldAllOf, holds, holds, holdsAll_map ih]
  | anyOf children ih =>
    rw [simplify_anyOf, holds_foldAnyOf, holds, holds, holdsAll_map ih]
  | exactlyOneOf children ih =>
    rw [simplify_exactlyOneOf, holds_foldExactlyOneOf, holds, holds, holdsAll_map ih]
  | atMostOneOf children ih =>
    rw [simplify_atMostOneOf, holds_foldAtMostOneOf, holds, holds, holdsAll_map ih]
  | useConditional flag expect children ih =>
    rw [simplify_useConditional, holds_foldConditional, holds, holds, holdsAll_map ih]
  | package atom blocking => rfl

end Expr

namespace Spec

/-- A value is satisfied exactly when the all-of group of its children holds. -/
theorem isSatisfiedBy_eq_asExpr (d : Spec) (packages : List ConcretePackage) (flags : NameSet) :
    d.isSatisfiedBy packages flags = d.asExpr.isSatisfiedBy packages flags := by
  rw [Bool.eq_iff_iff, asExpr, Expr.isSatisfiedBy, Expr.holds_allOf_iff, isSatisfiedBy,
    List.all_eq_true]
  rfl

/-- The value of one expression is satisfied exactly when the expression is. -/
theorem isSatisfiedBy_ofExpr (e : Expr) (packages : List ConcretePackage) (flags : NameSet) :
    (ofExpr e).isSatisfiedBy packages flags = e.isSatisfiedBy packages flags := by
  rw [Bool.eq_iff_iff, Expr.isSatisfiedBy, Expr.holds_iff_forall_allOfChildren, isSatisfiedBy,
    List.all_eq_true]
  rfl

/-- The same packages and flags satisfy a value and the simplified value. -/
theorem isSatisfiedBy_simplify (d : Spec) (packages : List ConcretePackage) (flags : NameSet) :
    d.simplify.isSatisfiedBy packages flags = d.isSatisfiedBy packages flags := by
  rw [simplify, isSatisfiedBy_ofExpr, isSatisfiedBy_eq_asExpr]
  exact Expr.holds_simplify d.asExpr

end Spec
end Dependency
end EbuildGraph
