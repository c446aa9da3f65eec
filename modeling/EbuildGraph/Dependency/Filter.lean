import EbuildGraph.Dependency.Basic
import EbuildGraph.Error

/-!
# The part of a value about one package

Main definitions:

- {lit}`Expr.filterFor`, {lit}`Spec.filterFor`: the leaves about a package in the
  groups around them, without groups that become empty.
-/

namespace EbuildGraph
namespace Dependency

namespace Expr

/-- A group of what is left, unless nothing is. -/
def unlessEmpty (group : List Expr → Expr) (members : List Expr) : Option Expr :=
  if members.isEmpty then none else some (group members)

mutual

/-- The part of an expression about a package, if there is any. -/
def filterFor (name : String) : Expr → Except Error (Option Expr)
  | allOf children => (filterAllFor name children).map (unlessEmpty allOf)
  | anyOf children => (filterAllFor name children).map (unlessEmpty anyOf)
  | exactlyOneOf children => .error (.ambiguousFilter name (exactlyOneOf children).text)
  | atMostOneOf children => .error (.ambiguousFilter name (atMostOneOf children).text)
  | useConditional flag expect children =>
    (filterAllFor name children).map (unlessEmpty (useConditional flag expect))
  | package atom blocking =>
    .ok (if atom.name = name then some (package atom blocking) else none)

/-- The parts of expressions about a package. -/
def filterAllFor (name : String) : List Expr → Except Error (List Expr)
  | [] => .ok []
  | e :: rest =>
    match e.filterFor name with
    | .error err => .error err
    | .ok kept => (filterAllFor name rest).map (kept.toList ++ ·)

end

end Expr

/-- The part of a value about a package. -/
def Spec.filterFor (d : Spec) (name : String) : Except Error Spec :=
  (Expr.filterAllFor name d.children).map Spec.mk

end Dependency
end EbuildGraph
