import EbuildGraph.Dependency.Basic
import EbuildGraph.Names.NameSet

/-!
# Deciding the conditions on USE flags

Main definitions:

- {lit}`Expr.decideUse`, {lit}`Spec.decideUse`: every conditional group becomes an
  all-of group when its condition holds, and the constant true when it does not.
-/

namespace EbuildGraph
namespace Dependency

namespace Expr

mutual

/-- The expression without conditional groups. -/
def decideUse (flags : NameSet) : Expr → Expr
  | allOf children => allOf (decideUseAll flags children)
  | anyOf children => anyOf (decideUseAll flags children)
  | exactlyOneOf children => exactlyOneOf (decideUseAll flags children)
  | atMostOneOf children => atMostOneOf (decideUseAll flags children)
  | useConditional flag expect children =>
    if flags.contains flag = expect then allOf (decideUseAll flags children) else true_
  | package atom blocking => package atom blocking

/-- Each expression of a list without conditional groups. -/
def decideUseAll (flags : NameSet) : List Expr → List Expr
  | [] => []
  | e :: rest => e.decideUse flags :: decideUseAll flags rest

end

theorem decideUseAll_eq_map (flags : NameSet) (es : List Expr) :
    decideUseAll flags es = es.map (decideUse flags) := by
  induction es with
  | nil => rfl
  | cons e rest ih => simp [decideUseAll, ih]

end Expr

/-- The value without conditional groups. -/
def Spec.decideUse (d : Spec) (flags : NameSet) : Spec :=
  ⟨Expr.decideUseAll flags d.children⟩

end Dependency
end EbuildGraph
