import EbuildGraph.Dependency.Basic

/-!
# Simplifying dependency expressions

Constants are folded from the leaves up, all-of groups inside all-of groups are
opened, and groups of one member give way to it.

Main definitions:

- {lit}`Expr.simplify`, {lit}`Spec.simplify`: the simplified expression and value.
-/

namespace EbuildGraph
namespace Dependency

namespace Expr

/-- A group, or its only member. -/
def unwrapSingleton (group : List Expr → Expr) (members : List Expr) : Expr :=
  match members with
  | [e] => e
  | members => group members

/-- The members of an all-of group with those of inner all-of groups in their place. -/
def openGroups (members : List Expr) : List Expr :=
  members.flatMap allOfChildren

/-- An all-of group of simplified members. -/
def foldAllOf (members : List Expr) : Expr :=
  if members.any isFalse then false_ else unwrapSingleton allOf (openGroups members)

/-- The members that are not constantly false. -/
def dropFalse (members : List Expr) : List Expr :=
  members.filter fun e => !e.isFalse

/-- An any-of group of simplified members. -/
def foldAnyOf (members : List Expr) : Expr :=
  if members.any isTrue then true_ else unwrapSingleton anyOf (dropFalse members)

/-- An exactly-one-of group of simplified members.  Members that are false do not
count, and two that are true already are too many. -/
def foldExactlyOneOf (members : List Expr) : Expr :=
  let out := dropFalse members
  let trues := out.countP isTrue
  if 2 ≤ trues then false_
  else
    match out with
    | [] => false_
    | [e] => if trues = 1 then true_ else e
    | out => exactlyOneOf out

/-- An at-most-one-of group of simplified members. -/
def foldAtMostOneOf (members : List Expr) : Expr :=
  let out := dropFalse members
  if 2 ≤ out.countP isTrue then false_
  else if out.length ≤ 1 then true_
  else atMostOneOf out

/-- A conditional group of simplified members. -/
def foldConditional (flag : String) (expect : Bool) (members : List Expr) : Expr :=
  let body := foldAllOf members
  if body.isTrue then true_ else useConditional flag expect body.allOfChildren

mutual

/-- The simplified expression. -/
def simplify : Expr → Expr
  | allOf children => foldAllOf (simplifyAll children)
  | anyOf children => foldAnyOf (simplifyAll children)
  | exactlyOneOf children => foldExactlyOneOf (simplifyAll children)
  | atMostOneOf children => foldAtMostOneOf (simplifyAll children)
  | useConditional flag expect children => foldConditional flag expect (simplifyAll children)
  | package atom blocking => package atom blocking

/-- Each expression of a list simplified. -/
def simplifyAll : List Expr → List Expr
  | [] => []
  | e :: rest => e.simplify :: simplifyAll rest

end

theorem simplifyAll_eq_map (es : List Expr) : simplifyAll es = es.map simplify := by
  induction es with
  | nil => rfl
  | cons e rest ih => simp [simplifyAll, ih]

end Expr

/-- The simplified value. -/
def Spec.simplify (d : Spec) : Spec :=
  .ofExpr d.asExpr.simplify

end Dependency
end EbuildGraph
