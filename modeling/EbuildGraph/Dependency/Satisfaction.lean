import EbuildGraph.Dependency.Basic

/-!
# When packages satisfy a dependency expression

Main definitions:

- {lit}`Expr.isSatisfiedBy`, {lit}`Spec.isSatisfiedBy`: whether installed packages and the
  flags in use satisfy an expression or a value.

A leaf holds when some package is admitted by its atom; blocking does not count.
-/

namespace EbuildGraph
namespace Dependency

namespace Expr

mutual

/-- Whether an expression holds when its leaves hold as given. -/
def holds (leaf : Atom → Blocking → Bool) (flags : NameSet) : Expr → Bool
  | allOf children => (holdsAll leaf flags children).all id
  | anyOf children => (holdsAll leaf flags children).any id
  | exactlyOneOf children => (holdsAll leaf flags children).count true == 1
  | atMostOneOf children => decide ((holdsAll leaf flags children).count true ≤ 1)
  | useConditional flag expect children =>
    flags.contains flag != expect || (holdsAll leaf flags children).all id
  | package atom blocking => leaf atom blocking

/-- Which expressions of a list hold. -/
def holdsAll (leaf : Atom → Blocking → Bool) (flags : NameSet) : List Expr → List Bool
  | [] => []
  | e :: rest => e.holds leaf flags :: holdsAll leaf flags rest

end

theorem holdsAll_eq_map (leaf : Atom → Blocking → Bool) (flags : NameSet) (es : List Expr) :
    holdsAll leaf flags es = es.map (holds leaf flags) := by
  induction es with
  | nil => rfl
  | cons e rest ih => simp [holdsAll, ih]

/-- Whether packages and flags satisfy an expression. -/
def isSatisfiedBy (packages : List ConcretePackage) (flags : NameSet) (e : Expr) : Bool :=
  e.holds (fun atom _ => packages.any atom.admits) flags

end Expr

/-- Whether packages and flags satisfy a value. -/
def Spec.isSatisfiedBy (d : Spec) (packages : List ConcretePackage) (flags : NameSet) : Bool :=
  d.children.all (Expr.isSatisfiedBy packages flags)

end Dependency
end EbuildGraph
