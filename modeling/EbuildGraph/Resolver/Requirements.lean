import EbuildGraph.Dependency.Conditional
import EbuildGraph.Dependency.Parser
import EbuildGraph.Dependency.Substitution
import EbuildGraph.Dependency.Selection
import EbuildGraph.Dependency.Simplify
import EbuildGraph.Resolver.Selection

/-!
# What a package requires

Main definitions:

- {lit}`Resolver.dependencies`: the atoms that a package depends on through a variable.
- {lit}`Resolver.requirements`: all that a package depends on.
-/

namespace EbuildGraph
namespace Resolver

open Dependency

/-- What a leaf of a dependency amounts to.  Blocked and provided packages need nothing
more, and a package that cannot be had makes the leaf false. -/
def reduceLeaf (r : Resolver) (atom : Atom) (blocking : Blocking) : Except Error Expr :=
  if blocking.isBlocked then .ok Expr.true_
  else if r.settings.overrides.excludes atom then .ok Expr.false_
  else if r.provides atom then .ok Expr.true_
  else
    (r.candidates atom).map fun packages =>
      if packages.isEmpty then Expr.false_ else .package atom .none

/-- The value of a dependency variable reduced to one choice. -/
def reduce (r : Resolver) (p : Package) (var : String) : Except Error Spec := do
  let parsed ← Spec.parse (Variables.value p.metadata var)
  let reduced ← (parsed.decideUse p.useFlags).trySubstitute r.reduceLeaf
  return reduced.simplify.pickFirst.simplify

/-- The atoms that the value of a dependency variable asks for. -/
def declared (r : Resolver) (p : Package) (var : String) : Except Error (List Atom) := do
  let spec ← r.reduce p var
  if spec.children.any Expr.isFalse then
    throw (.unsatisfiable var p.name (Variables.value p.metadata var))
  spec.decidedAtoms

/-- The atoms that a package depends on through a variable.  Forced dependencies stand in
for all others, and further ones of the overrides come last. -/
def dependencies (r : Resolver) (p : Package) (var : String) : Except Error (List Atom) := do
  match ← r.settings.overrides.forcedAtoms p.name with
  | some forced => return if var = "RDEPEND" then forced else []
  | none =>
    let atoms ← r.declared p var
    let extra ← r.settings.overrides.extraAtoms p.name var
    return atoms ++ extra

/-- What a package depends on at run time, when it is built, and afterwards. -/
structure Requirements where
  runtime : List Atom
  build : List Atom
  post : List Atom
deriving DecidableEq

/-- Whether a package only carries Rust sources for the packages that depend on it, which
then need all that it is built with. -/
def isRustSource (p : Package) : Bool :=
  p.inherits "cros-rust" && !p.inherits "cros-workon" &&
    Variables.value p.metadata "HAS_SRC_COMPILE" == "0"

/-- All that a package depends on. -/
def requirements (r : Resolver) (p : Package) : Except Error Requirements := do
  let runtime ← r.dependencies p "RDEPEND"
  let eapi ← p.eapi
  let build ← eapi.buildVariables.mapM (r.dependencies p)
  let post ← r.dependencies p "PDEPEND"
  let build := build.flatten
  return ⟨if isRustSource p then runtime ++ build else runtime, build, post⟩

end Resolver
end EbuildGraph
