import EbuildGraph.Dependency.Basic
import EbuildGraph.Error

/-!
# Removing blockers

A blocked leaf counts as true and disappears from the group around it.  An any-of
group that loses a member is true.  Below an exactly-one-of or at-most-one-of group
a loss would change what the group means, so there it is an error.

Main definitions:

- {lit}`Expr.withoutBlockers`, {lit}`Spec.withoutBlockers`: the expression and the value
  without blocked leaves.
-/

namespace EbuildGraph
namespace Dependency

namespace Expr

/-- The members that are not constantly true. -/
def dropTrue (members : List Expr) : List Expr :=
  members.filter fun e => !e.isTrue

/-- A group that must not lose a member. -/
def keepWhole (group : List Expr → Expr) (original : Expr) (members : List Expr) :
    Except Error Expr :=
  if members.any isTrue then .error (.ambiguousBlocks original.text) else .ok (group members)

mutual

/-- The expression without blocked leaves. -/
def withoutBlockers : Expr → Except Error Expr
  | allOf children => (withoutBlockersAll children).map fun out => allOf (dropTrue out)
  | anyOf children =>
    (withoutBlockersAll children).map fun out => if out.any isTrue then true_ else anyOf out
  | exactlyOneOf children =>
    (withoutBlockersAll children).bind (keepWhole exactlyOneOf (exactlyOneOf children))
  | atMostOneOf children =>
    (withoutBlockersAll children).bind (keepWhole atMostOneOf (atMostOneOf children))
  | useConditional flag expect children =>
    (withoutBlockersAll children).map fun out => useConditional flag expect (dropTrue out)
  | package atom blocking =>
    .ok (if blocking.isBlocked then true_ else package atom blocking)

/-- Each expression of a list without blocked leaves. -/
def withoutBlockersAll : List Expr → Except Error (List Expr)
  | [] => .ok []
  | e :: rest =>
    match e.withoutBlockers with
    | .error err => .error err
    | .ok e => (withoutBlockersAll rest).map (e :: ·)

end

end Expr

/-- The value without blocked leaves. -/
def Spec.withoutBlockers (d : Spec) : Except Error Spec :=
  (Expr.withoutBlockersAll d.children).map fun out => ⟨Expr.dropTrue out⟩

end Dependency
end EbuildGraph
