import EbuildGraph.Dependency.Basic
import EbuildGraph.Error

/-!
# Choosing among alternatives

Main definitions:

- {lit}`Expr.pickFirst`, {lit}`Spec.pickFirst`: every any-of group replaced by its
  first member.
- {lit}`Spec.decidedAtoms`: the atoms of a value that leaves no choice.
-/

namespace EbuildGraph
namespace Dependency

namespace Expr

mutual

/-- The expression with every any-of group replaced by its first member. -/
def pickFirst : Expr → Expr
  | allOf children => allOf (pickFirstAll children)
  | anyOf children =>
    match pickFirstAll children with
    | [] => false_
    | e :: _ => e
  | exactlyOneOf children => exactlyOneOf (pickFirstAll children)
  | atMostOneOf children => atMostOneOf (pickFirstAll children)
  | useConditional flag expect children => useConditional flag expect (pickFirstAll children)
  | package atom blocking => package atom blocking

/-- Each expression of a list with its any-of groups replaced. -/
def pickFirstAll : List Expr → List Expr
  | [] => []
  | e :: rest => e.pickFirst :: pickFirstAll rest

end

theorem pickFirstAll_eq_map (es : List Expr) : pickFirstAll es = es.map pickFirst := by
  induction es with
  | nil => rfl
  | cons e rest ih => simp [pickFirstAll, ih]

mutual

/-- The atoms of an expression that leaves no choice.  The outermost group from the
left that leaves one is the failure. -/
def decidedAtoms : Expr → Except Error (List Atom)
  | allOf children => decidedAtomsAll children
  | anyOf children =>
    if 2 ≤ children.length then .error (.undecided (anyOf children).text)
    else decidedAtomsAll children
  | exactlyOneOf children =>
    if children.length ≠ 1 then .error (.undecided (exactlyOneOf children).text)
    else decidedAtomsAll children
  | atMostOneOf children =>
    if children.isEmpty then .ok [] else .error (.undecided (atMostOneOf children).text)
  | useConditional _ _ children => decidedAtomsAll children
  | package atom blocking => .ok (if blocking.isBlocked then [] else [atom])

/-- The atoms of expressions that leave no choice. -/
def decidedAtomsAll : List Expr → Except Error (List Atom)
  | [] => .ok []
  | e :: rest =>
    match e.decidedAtoms with
    | .error err => .error err
    | .ok atoms => (decidedAtomsAll rest).map (atoms ++ ·)

end

end Expr

/-- The value with every any-of group replaced by its first member. -/
def Spec.pickFirst (d : Spec) : Spec :=
  ⟨Expr.pickFirstAll d.children⟩

/-- The atoms of a value that leaves no choice. -/
def Spec.decidedAtoms (d : Spec) : Except Error (List Atom) :=
  Expr.decidedAtomsAll d.children

end Dependency
end EbuildGraph
