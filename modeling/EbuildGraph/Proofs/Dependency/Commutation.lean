import EbuildGraph.Dependency.Conditional
import EbuildGraph.Dependency.Substitution
import EbuildGraph.Proofs.Dependency.NormalForm

/-!
# Simplifying before and after other passes

A pass that rebuilds every group from its rewritten members can be put before or after
simplification: what is simplified in the end is the same tree.  The reason is that each
fold commutes with such a pass up to one more simplification.

Main results:

- Theorem {lit}`Expr.foldAllOf_append`: all-of groups can be folded piece by piece.
- Theorem {lit}`Expr.Rebuilds.simplify_absorbs`: a pass of that kind absorbs a
  simplification before it.
- Theorem {lit}`simplify_absorbs_simplify`: the same for deciding conditions and for
  replacing leaves, of expressions and of values.
-/

namespace EbuildGraph
namespace Dependency
namespace Expr

/-! ## Folding all-of groups piece by piece -/

/-- Of normal members an all-of group folds to the false constant only if that is one of them. -/
theorem foldAllOf_eq_false_iff {members : List Expr} (h : ∀ m ∈ members, m.IsNormal) :
    foldAllOf members = false_ ↔ false_ ∈ members := by
  refine ⟨fun hfold => ?_, foldAllOf_of_mem⟩
  by_cases hfalse : false_ ∈ members
  · exact hfalse
  · rw [foldAllOf_of_not_mem hfalse] at hfold
    rcases unwrapSingleton_cases allOf (openGroups members) with ⟨e, hone, heq⟩ | ⟨_, heq⟩
    · have he : e ∈ openGroups members := by simp [hone]
      exact absurd (heq.symm.trans hfold) (isNormal_of_mem_openGroups h hfalse he).2.1
    · simp [heq, false_] at hfold

/-- Opening a folded group gives the members that were folded. -/
theorem allOfChildren_foldAllOf {members : List Expr} (h : ∀ m ∈ members, m.IsNormal)
    (hfalse : false_ ∉ members) : (foldAllOf members).allOfChildren = openGroups members := by
  rw [foldAllOf_of_not_mem hfalse]
  rcases unwrapSingleton_cases allOf (openGroups members) with ⟨e, hone, heq⟩ | ⟨_, heq⟩
  · have he : e ∈ openGroups members := by simp [hone]
    have hkind := (isNormal_of_mem_openGroups h hfalse he).2.2
    rw [heq, hone, allOfChildren_of_kind_ne hkind]
  · rw [heq, allOfChildren]

/-- Two parts of an all-of group may be folded first. -/
theorem foldAllOf_append {left right : List Expr} (hleft : ∀ m ∈ left, m.IsNormal)
    (hright : ∀ m ∈ right, m.IsNormal) :
    foldAllOf (left ++ right) = foldAllOf [foldAllOf left, foldAllOf right] := by
  by_cases hfalse : false_ ∈ left ++ right
  · have hpart : false_ ∈ [foldAllOf left, foldAllOf right] := by
      rcases List.mem_append.1 hfalse with hmem | hmem
      · simp [foldAllOf_of_mem hmem]
      · simp [foldAllOf_of_mem hmem]
    rw [foldAllOf_of_mem hfalse, foldAllOf_of_mem hpart]
  · have hnone : false_ ∉ left ∧ false_ ∉ right := by simpa using hfalse
    have hparts : false_ ∉ [foldAllOf left, foldAllOf right] := by
      simp only [List.mem_cons, List.not_mem_nil, or_false, not_or]
      exact ⟨fun h => hnone.1 ((foldAllOf_eq_false_iff hleft).1 h.symm),
        fun h => hnone.2 ((foldAllOf_eq_false_iff hright).1 h.symm)⟩
    have hopen : openGroups [foldAllOf left, foldAllOf right] = openGroups (left ++ right) := by
      simp only [openGroups, List.flatMap_cons, List.flatMap_nil, List.append_nil,
        List.flatMap_append]
      rw [allOfChildren_foldAllOf hleft hnone.1, allOfChildren_foldAllOf hright hnone.2]
      rfl
    rw [foldAllOf_of_not_mem hfalse, foldAllOf_of_not_mem hparts, hopen]

/-! ## Passes with simplification after them -/

/-- A pass with simplification after it. -/
def thenSimplify (pass : Expr → Expr) (e : Expr) : Expr :=
  (pass e).simplify

/-- What is simplified behind a pass is normal, whatever the pass did. -/
theorem isNormal_thenSimplify (pass : Expr → Expr) (e : Expr) : (thenSimplify pass e).IsNormal :=
  isNormal_simplify (pass e)

theorem isNormal_of_mem_map_thenSimplify {pass : Expr → Expr} {es : List Expr} :
    ∀ m ∈ es.map (thenSimplify pass), m.IsNormal :=
  List.forall_mem_map.2 fun e _ => isNormal_thenSimplify pass e

section OpenedGroups

variable {pass : Expr → Expr} (hallOf : ∀ es, pass (allOf es) = allOf (es.map pass))
include hallOf

/-- A pass on an all-of group folds what it makes of the members. -/
theorem thenSimplify_allOf (es : List Expr) :
    thenSimplify pass (allOf es) = foldAllOf (es.map (thenSimplify pass)) := by
  rw [thenSimplify, hallOf, simplify_allOf, List.map_map]
  rfl

/-- Rewriting what an expression opens to is rewriting the expression. -/
theorem foldAllOf_map_allOfChildren (e : Expr) :
    foldAllOf (e.allOfChildren.map (thenSimplify pass)) = thenSimplify pass e := by
  cases e with
  | allOf es => exact (thenSimplify_allOf hallOf es).symm
  | _ => exact foldAllOf_singleton (isNormal_thenSimplify pass _)

/-- Inner all-of groups may be opened before or after the pass. -/
theorem foldAllOf_map_openGroups (members : List Expr) :
    foldAllOf ((openGroups members).map (thenSimplify pass)) =
      foldAllOf (members.map (thenSimplify pass)) := by
  induction members with
  | nil => rfl
  | cons m rest ih =>
    have hopen : openGroups (m :: rest) = m.allOfChildren ++ openGroups rest := rfl
    calc
      foldAllOf ((openGroups (m :: rest)).map (thenSimplify pass)) =
          foldAllOf [thenSimplify pass m, foldAllOf (rest.map (thenSimplify pass))] := by
        rw [hopen, List.map_append, foldAllOf_append isNormal_of_mem_map_thenSimplify
          isNormal_of_mem_map_thenSimplify, foldAllOf_map_allOfChildren hallOf m, ih]
      _ = foldAllOf ([m].map (thenSimplify pass) ++ rest.map (thenSimplify pass)) := by
        rw [foldAllOf_append isNormal_of_mem_map_thenSimplify isNormal_of_mem_map_thenSimplify,
          List.map_singleton, foldAllOf_singleton (isNormal_thenSimplify pass m)]

end OpenedGroups

/-! ## Passes that rebuild groups -/

/-- A pass that rebuilds every group from its rewritten members.  What becomes of a
condition may depend on it, but only through its rewritten body. -/
structure Rebuilds (pass : Expr → Expr) : Prop where
  allOf_eq : ∀ es, pass (allOf es) = allOf (es.map pass)
  anyOf_eq : ∀ es, pass (anyOf es) = anyOf (es.map pass)
  exactlyOneOf_eq : ∀ es, pass (exactlyOneOf es) = exactlyOneOf (es.map pass)
  atMostOneOf_eq : ∀ es, pass (atMostOneOf es) = atMostOneOf (es.map pass)
  useConditional_eq : ∀ flag expect, ∃ close : Expr → Expr, close true_ = true_ ∧
    ∀ es, thenSimplify pass (useConditional flag expect es) =
      close (foldAllOf (es.map (thenSimplify pass)))

namespace Rebuilds

variable {pass : Expr → Expr} (h : Rebuilds pass)
include h

theorem thenSimplify_true : thenSimplify pass true_ = true_ :=
  thenSimplify_allOf h.allOf_eq []

/-- A pass on an any-of group folds what it makes of the members. -/
theorem thenSimplify_anyOf (es : List Expr) :
    thenSimplify pass (anyOf es) = foldAnyOf (es.map (thenSimplify pass)) := by
  rw [thenSimplify, h.anyOf_eq, simplify_anyOf, List.map_map]
  rfl

theorem thenSimplify_false : thenSimplify pass false_ = false_ :=
  h.thenSimplify_anyOf []

/-- A pass on an exactly-one-of group folds what it makes of the members. -/
theorem thenSimplify_exactlyOneOf (es : List Expr) :
    thenSimplify pass (exactlyOneOf es) = foldExactlyOneOf (es.map (thenSimplify pass)) := by
  rw [thenSimplify, h.exactlyOneOf_eq, simplify_exactlyOneOf, List.map_map]
  rfl

/-- A pass on an at-most-one-of group folds what it makes of the members. -/
theorem thenSimplify_atMostOneOf (es : List Expr) :
    thenSimplify pass (atMostOneOf es) = foldAtMostOneOf (es.map (thenSimplify pass)) := by
  rw [thenSimplify, h.atMostOneOf_eq, simplify_atMostOneOf, List.map_map]
  rfl

/-- Members that are true stay true, so a pass has as many of them at least. -/
theorem count_true_le_map (es : List Expr) :
    es.count true_ ≤ (es.map (thenSimplify pass)).count true_ := by
  rw [List.count_eq_countP, List.count_eq_countP, List.countP_map]
  apply List.countP_mono_left
  intro e _ he
  rw [Function.comp_apply, eq_of_beq he, h.thenSimplify_true, beq_self_eq_true]

/-! ## Folds and passes -/

/-- A pass on a folded all-of group is that on its members, folded afterwards. -/
theorem thenSimplify_foldAllOf (members : List Expr) :
    thenSimplify pass (foldAllOf members) = foldAllOf (members.map (thenSimplify pass)) := by
  by_cases hfalse : false_ ∈ members
  · have hmem : false_ ∈ members.map (thenSimplify pass) :=
      List.mem_map.2 ⟨false_, hfalse, h.thenSimplify_false⟩
    rw [foldAllOf_of_mem hfalse, h.thenSimplify_false, foldAllOf_of_mem hmem]
  · rw [foldAllOf_of_not_mem hfalse, ← foldAllOf_map_openGroups h.allOf_eq members]
    rcases unwrapSingleton_cases allOf (openGroups members) with ⟨e, hone, heq⟩ | ⟨_, heq⟩
    · rw [heq, hone, List.map_singleton, foldAllOf_singleton (isNormal_thenSimplify pass e)]
    · rw [heq, thenSimplify_allOf h.allOf_eq]

/-- A pass on a folded any-of group is that on its members, folded afterwards. -/
theorem thenSimplify_foldAnyOf (members : List Expr) :
    thenSimplify pass (foldAnyOf members) = foldAnyOf (members.map (thenSimplify pass)) := by
  by_cases htrue : true_ ∈ members
  · have hmem : true_ ∈ members.map (thenSimplify pass) :=
      List.mem_map.2 ⟨true_, htrue, h.thenSimplify_true⟩
    rw [foldAnyOf_of_mem htrue, h.thenSimplify_true, foldAnyOf_of_mem hmem]
  · rw [foldAnyOf_of_not_mem htrue, ← foldAnyOf_dropFalse (members.map _),
      ← dropFalse_map_dropFalse h.thenSimplify_false, foldAnyOf_dropFalse]
    rcases unwrapSingleton_cases anyOf (dropFalse members) with ⟨e, hone, heq⟩ | ⟨_, heq⟩
    · rw [heq, hone, List.map_singleton, foldAnyOf_singleton]
    · rw [heq, h.thenSimplify_anyOf]

/-- A pass on a folded exactly-one-of group is that on its members, folded afterwards. -/
theorem thenSimplify_foldExactlyOneOf (members : List Expr) :
    thenSimplify pass (foldExactlyOneOf members) =
      foldExactlyOneOf (members.map (thenSimplify pass)) := by
  by_cases htwo : 2 ≤ members.count true_
  · have hmap := h.count_true_le_map members
    rw [foldExactlyOneOf_of_two htwo, h.thenSimplify_false,
      foldExactlyOneOf_of_two (Nat.le_trans htwo hmap)]
  · rw [← foldExactlyOneOf_dropFalse (members.map _),
      ← dropFalse_map_dropFalse h.thenSimplify_false, foldExactlyOneOf_dropFalse]
    rcases hout : dropFalse members with _ | ⟨e, _ | ⟨e', rest⟩⟩
    · rw [foldExactlyOneOf_of_nil hout, h.thenSimplify_false]
      rfl
    · rw [foldExactlyOneOf_of_one hout, List.map_singleton, foldExactlyOneOf_singleton]
    · rw [foldExactlyOneOf_of_many (by omega) (by simp [hout]), h.thenSimplify_exactlyOneOf, hout]

/-- A pass on a folded at-most-one-of group is that on its members, folded afterwards. -/
theorem thenSimplify_foldAtMostOneOf (members : List Expr) :
    thenSimplify pass (foldAtMostOneOf members) =
      foldAtMostOneOf (members.map (thenSimplify pass)) := by
  by_cases htwo : 2 ≤ members.count true_
  · have hmap := h.count_true_le_map members
    rw [foldAtMostOneOf_of_two htwo, h.thenSimplify_false,
      foldAtMostOneOf_of_two (Nat.le_trans htwo hmap)]
  · rw [← foldAtMostOneOf_dropFalse (members.map _),
      ← dropFalse_map_dropFalse h.thenSimplify_false, foldAtMostOneOf_dropFalse]
    by_cases hfew : (dropFalse members).length ≤ 1
    · have hle := length_dropFalse_le ((dropFalse members).map (thenSimplify pass))
      rw [List.length_map] at hle
      rw [foldAtMostOneOf_of_few hfew, h.thenSimplify_true,
        foldAtMostOneOf_of_few (Nat.le_trans hle hfew)]
    · rw [foldAtMostOneOf_of_many (by omega) (by omega), h.thenSimplify_atMostOneOf]

/-- A condition whose body is true is true before the pass and after it. -/
theorem thenSimplify_foldConditional (flag : String) (expect : Bool) (members : List Expr) :
    thenSimplify pass (foldConditional flag expect members) =
      thenSimplify pass (useConditional flag expect members) := by
  obtain ⟨close, hclose, hcondition⟩ := h.useConditional_eq flag expect
  rw [hcondition, ← h.thenSimplify_foldAllOf]
  by_cases htrue : foldAllOf members = true_
  · rw [foldConditional_of_true htrue, htrue, h.thenSimplify_true, hclose]
  · rw [foldConditional_of_ne_true htrue, hcondition, foldAllOf_map_allOfChildren h.allOf_eq]

/-- A pass that rebuilds groups, followed by simplification, gives the same whether or
not the expression is simplified before. -/
theorem simplify_absorbs (e : Expr) : thenSimplify pass e.simplify = thenSimplify pass e := by
  induction e with
  | allOf es ih =>
    rw [simplify_allOf, h.thenSimplify_foldAllOf, thenSimplify_allOf h.allOf_eq, List.map_map]
    exact congrArg foldAllOf (List.map_congr_left ih)
  | anyOf es ih =>
    rw [simplify_anyOf, h.thenSimplify_foldAnyOf, h.thenSimplify_anyOf, List.map_map]
    exact congrArg foldAnyOf (List.map_congr_left ih)
  | exactlyOneOf es ih =>
    rw [simplify_exactlyOneOf, h.thenSimplify_foldExactlyOneOf, h.thenSimplify_exactlyOneOf,
      List.map_map]
    exact congrArg foldExactlyOneOf (List.map_congr_left ih)
  | atMostOneOf es ih =>
    rw [simplify_atMostOneOf, h.thenSimplify_foldAtMostOneOf, h.thenSimplify_atMostOneOf,
      List.map_map]
    exact congrArg foldAtMostOneOf (List.map_congr_left ih)
  | useConditional flag expect es ih =>
    obtain ⟨close, _, hcondition⟩ := h.useConditional_eq flag expect
    rw [simplify_useConditional, h.thenSimplify_foldConditional, hcondition, hcondition,
      List.map_map]
    exact congrArg (fun es => close (foldAllOf es)) (List.map_congr_left ih)
  | package atom blocking => rfl

end Rebuilds

/-! ## Deciding conditions and replacing leaves -/

/-- Deciding conditions goes through the groups of an expression. -/
theorem rebuilds_decideUse (flags : NameSet) : Rebuilds (decideUse flags) where
  allOf_eq es := by rw [decideUse, decideUseAll_eq_map]
  anyOf_eq es := by rw [decideUse, decideUseAll_eq_map]
  exactlyOneOf_eq es := by rw [decideUse, decideUseAll_eq_map]
  atMostOneOf_eq es := by rw [decideUse, decideUseAll_eq_map]
  useConditional_eq flag expect := by
    by_cases hflag : flags.contains flag = expect
    · refine ⟨id, rfl, ?_⟩
      intro es
      rw [thenSimplify, decideUse, if_pos hflag, decideUseAll_eq_map, simplify_allOf, List.map_map]
      rfl
    · refine ⟨fun _ => true_, rfl, ?_⟩
      intro es
      rw [thenSimplify, decideUse, if_neg hflag, simplify_true]

/-- Replacing leaves goes through the groups of an expression. -/
theorem rebuilds_substitute (f : Atom → Blocking → Expr) : Rebuilds (substitute f) where
  allOf_eq es := by rw [substitute, substituteAll_eq_map]
  anyOf_eq es := by rw [substitute, substituteAll_eq_map]
  exactlyOneOf_eq es := by rw [substitute, substituteAll_eq_map]
  atMostOneOf_eq es := by rw [substitute, substituteAll_eq_map]
  useConditional_eq flag expect := by
    refine ⟨fun body =>
      if body.isTrue then true_ else useConditional flag expect body.allOfChildren, rfl, ?_⟩
    intro es
    rw [thenSimplify, substitute, substituteAll_eq_map, simplify_useConditional, List.map_map]
    rfl

end Expr

/-- Simplifying the rewritten members of an opened expression is simplifying the
rewritten expression and opening that. -/
theorem Spec.simplify_map_allOfChildren {pass : Expr → Expr}
    (hallOf : ∀ es, pass (.allOf es) = .allOf (es.map pass)) (e : Expr) :
    (Spec.mk (e.allOfChildren.map pass)).simplify = .ofExpr (pass e).simplify := by
  have hfold := Expr.foldAllOf_map_allOfChildren hallOf e
  rw [Spec.simplify, Spec.asExpr, Expr.simplify_allOf, List.map_map]
  exact congrArg Spec.ofExpr hfold

/-- A value may be simplified before a pass that rebuilds groups. -/
theorem Spec.simplify_map_simplify {pass : Expr → Expr} (h : Expr.Rebuilds pass) (d : Spec) :
    (Spec.mk (d.simplify.children.map pass)).simplify =
      (Spec.mk (d.children.map pass)).simplify := by
  have habsorbs : (pass d.asExpr.simplify).simplify = (pass d.asExpr).simplify :=
    h.simplify_absorbs d.asExpr
  calc
    (Spec.mk (d.simplify.children.map pass)).simplify = .ofExpr (pass d.asExpr.simplify).simplify :=
      Spec.simplify_map_allOfChildren h.allOf_eq d.asExpr.simplify
    _ = .ofExpr (pass d.asExpr).simplify := by rw [habsorbs]
    _ = (Spec.mk (d.children.map pass)).simplify :=
      (Spec.simplify_map_allOfChildren h.allOf_eq d.asExpr).symm

/-- Deciding conditions and replacing leaves absorb a simplification before them: the
tree that is simplified last is the same with it and without it. -/
theorem simplify_absorbs_simplify :
    (∀ (flags : NameSet) (e : Expr),
      (e.simplify.decideUse flags).simplify = (e.decideUse flags).simplify) ∧
    (∀ (f : Atom → Blocking → Expr) (e : Expr),
      (e.simplify.substitute f).simplify = (e.substitute f).simplify) ∧
    (∀ (flags : NameSet) (d : Spec),
      (d.simplify.decideUse flags).simplify = (d.decideUse flags).simplify) ∧
    ∀ (f : Atom → Blocking → Expr) (d : Spec),
      (d.simplify.substitute f).simplify = (d.substitute f).simplify := by
  refine ⟨?_, ?_, ?_, ?_⟩
  · intro flags e
    exact (Expr.rebuilds_decideUse flags).simplify_absorbs e
  · intro f e
    exact (Expr.rebuilds_substitute f).simplify_absorbs e
  · intro flags d
    rw [Spec.decideUse, Spec.decideUse, Expr.decideUseAll_eq_map, Expr.decideUseAll_eq_map]
    exact Spec.simplify_map_simplify (Expr.rebuilds_decideUse flags) d
  · intro f d
    rw [Spec.substitute, Spec.substitute, Expr.substituteAll_eq_map, Expr.substituteAll_eq_map]
    exact Spec.simplify_map_simplify (Expr.rebuilds_substitute f) d

end Dependency
end EbuildGraph
