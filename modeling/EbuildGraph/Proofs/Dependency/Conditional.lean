import EbuildGraph.Proofs.Dependency.Rewriting

/-!
# Deciding conditions ahead of evaluation

A conditional group holds as its members do when its condition holds, and is satisfied when it
does not.  Deciding the conditions first makes the same choice for each group, wherever it stands,
so what is left holds under any flags as the expression holds under the flags that decided.  No
condition is left to be decided again.

Main results:

- Theorem {lit}`Expr.decideUse_of_avoids`: what has no conditions is kept.
- Theorem {lit}`Expr.holds_decideUse`: flags count once, when conditions are decided.
- Theorem {lit}`Spec.decideUse_evaluates_conditions`: both together, for whole values.
-/

namespace EbuildGraph
namespace Dependency
namespace Expr

variable {leaf : Atom → Blocking → Bool} {flags others : NameSet}

/-! ## Expressions without conditions -/

/-- Members without conditions are kept as they are. -/
theorem decideUseAll_eq_self {es : List Expr} (h : ∀ e ∈ es, e.decideUse flags = e) :
    decideUseAll flags es = es := by
  rw [decideUseAll_eq_map, List.map_congr_left h, List.map_id']

/-- An expression without conditions is kept as it is. -/
theorem decideUse_of_avoids {e : Expr} (h : e.Avoids .useConditional) :
    e.decideUse flags = e := by
  induction e with
  | allOf es ih | anyOf es ih | exactlyOneOf es ih | atMostOneOf es ih =>
    rw [decideUse, decideUseAll_eq_self fun c hc => ih c hc (h.child hc)]
  | useConditional flag expect es => exact absurd rfl h.kind_ne
  | package atom blocking => rfl

/-! ## Truth of what is left -/

/-- Once conditions are decided, an expression holds under any flags as it did under the flags
that decided them. -/
theorem holds_decideUse (e : Expr) :
    (e.decideUse flags).holds leaf others = e.holds leaf flags := by
  induction e with
  | allOf es ih | anyOf es ih | exactlyOneOf es ih | atMostOneOf es ih =>
    rw [decideUse, decideUseAll_eq_map, holds, holds, holdsAll_map ih]
  | useConditional flag expect es ih =>
    by_cases hcondition : flags.contains flag = expect
    · rw [decideUse, if_pos hcondition, decideUseAll_eq_map, holds, holds, holdsAll_map ih]
      simp [hcondition]
    · rw [decideUse, if_neg hcondition, holds_true, holds]
      simp [hcondition]
  | package atom blocking => rfl

end Expr

namespace Spec

/-- Deciding the conditions of a value leaves none.  Other flags have nothing to decide any more,
and under any of them the same packages satisfy what is left as satisfy the value under the flags
that decided. -/
theorem decideUse_evaluates_conditions (d : Spec) (flags others : NameSet)
    (packages : List ConcretePackage) :
    (d.decideUse flags).asExpr.Avoids .useConditional ∧
      (d.decideUse flags).decideUse others = d.decideUse flags ∧
      (d.decideUse flags).isSatisfiedBy packages others = d.isSatisfiedBy packages flags := by
  have hexpr : (d.decideUse flags).asExpr = d.asExpr.decideUse flags := rfl
  have havoids : (d.decideUse flags).asExpr.Avoids .useConditional :=
    Expr.avoids_decideUse flags d.asExpr
  refine ⟨havoids, ?_, ?_⟩
  · have hkept : (d.decideUse flags).asExpr.decideUse others = (d.decideUse flags).asExpr :=
      Expr.decideUse_of_avoids havoids
    exact congrArg Spec.mk (Expr.allOf.inj hkept)
  · rw [isSatisfiedBy_eq_asExpr, isSatisfiedBy_eq_asExpr, hexpr]
    exact Expr.holds_decideUse d.asExpr

end Spec
end Dependency
end EbuildGraph
