import EbuildGraph.Dependency.Basic
import EbuildGraph.Names.NameSet

/-!
# Leaves of a dependency expression

Main definitions:

- {lit}`Expr.leaves`, {lit}`Spec.leaves`: all atoms from left to right, each with
  whether it is blocked.
- {lit}`Spec.atoms`: the atoms that are not blocked.
- {lit}`Spec.packageNames`: the names of their packages.
-/

namespace EbuildGraph
namespace Dependency

namespace Expr

mutual

/-- The atoms of an expression from left to right. -/
def leaves : Expr → List (Atom × Blocking)
  | allOf children => leavesOfAll children
  | anyOf children => leavesOfAll children
  | exactlyOneOf children => leavesOfAll children
  | atMostOneOf children => leavesOfAll children
  | useConditional _ _ children => leavesOfAll children
  | package atom blocking => [(atom, blocking)]

/-- The atoms of a list of expressions from left to right. -/
def leavesOfAll : List Expr → List (Atom × Blocking)
  | [] => []
  | e :: rest => e.leaves ++ leavesOfAll rest

end

end Expr

namespace Spec

/-- The atoms of a value from left to right. -/
def leaves (d : Spec) : List (Atom × Blocking) :=
  Expr.leavesOfAll d.children

/-- The atoms that are not blocked, from left to right. -/
def atoms (d : Spec) : List Atom :=
  (d.leaves.filter fun leaf => !leaf.2.isBlocked).map Prod.fst

/-- The names of the packages that are not blocked. -/
def packageNames (d : Spec) : NameSet :=
  NameSet.ofList (d.atoms.map Atom.name)

end Spec

end Dependency
end EbuildGraph
