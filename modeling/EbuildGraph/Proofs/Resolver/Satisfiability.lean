import EbuildGraph.Proofs.Dependency.Alternatives
import EbuildGraph.Proofs.Resolver.Requirements

/-!
# Requirements that can be met

Extracting the atoms of a dependency takes the first alternative of every any-of group before
it knows whether the rest of the value holds.  Where a value only offers alternatives this
loses nothing: its atoms are found exactly when the value holds once everything that can be
had is there, and otherwise the value is refused as unsatisfiable.

Main definitions:

- {lit}`Resolver.isSatisfiable`: whether a value holds when all that can be had is there.
- {lit}`Resolver.CandidatesFound`: whether all candidates that a value asks for can be listed.

Main results:

- Theorem {lit}`declared_of_isSatisfiable`: the atoms of a value that can hold are found.
- Theorem {lit}`declared_of_not_isSatisfiable`: a value that cannot hold is refused.
- Theorem {lit}`dependencies_eq_ok_iff_isSatisfiable`: both together, for the dependencies of
  a package.
-/

namespace EbuildGraph
namespace Resolver

open Dependency

variable {r : Resolver} {p : Package} {var : String} {tree : Spec}

/-- Whether a value holds, with its conditions decided by the flags of the package, when every
atom that can be had counts as true. -/
def isSatisfiable (r : Resolver) (p : Package) (tree : Spec) : Bool :=
  (tree.decideUse p.useFlags).asExpr.holds (r.leafTruth fun _ => true) p.useFlags

/-- What a leaf amounts to depends on its candidates: it is not blocked, and its package is
neither known to be out of reach nor treated as installed. -/
structure IsLookedUp (r : Resolver) (atom : Atom) (blocking : Blocking) : Prop where
  unblocked : blocking.isBlocked = false
  attainable : r.settings.overrides.excludes atom = false
  absent : r.provides atom = false

/-- The candidates can be listed of every leaf that is left once conditions are decided and that
is looked up. -/
def CandidatesFound (r : Resolver) (p : Package) (tree : Spec) : Prop :=
  ∀ leaf ∈ (tree.decideUse p.useFlags).leaves, r.IsLookedUp leaf.1 leaf.2 →
    ∃ packages, r.candidates leaf.1 = .ok packages

/-! ## Reduced values -/

/-- A leaf can be reduced if its candidates can be listed when it is looked up. -/
theorem reduceLeaf_of_candidates {atom : Atom} {blocking : Blocking}
    (h : r.IsLookedUp atom blocking → ∃ packages, r.candidates atom = .ok packages) :
    r.reduceLeaf atom blocking = .ok (r.leafExpr atom blocking) := by
  have hok : ∃ e, r.reduceLeaf atom blocking = .ok e := by
    unfold reduceLeaf
    split
    · exact ⟨_, rfl⟩
    split
    · exact ⟨_, rfl⟩
    split
    · exact ⟨_, rfl⟩
    · next hblocked hexcluded hprovided =>
      obtain ⟨packages, hpackages⟩ := h ⟨by simpa using hblocked, by simpa using hexcluded,
        by simpa using hprovided⟩
      exact ⟨_, congrArg (Except.map _) hpackages⟩
  obtain ⟨e, he⟩ := hok
  rw [he, leafExpr_eq he]

/-- The value of a variable with its conditions decided and its leaves reduced. -/
def leafReduced (r : Resolver) (p : Package) (tree : Spec) : Spec :=
  (tree.decideUse p.useFlags).substitute r.leafExpr

/-- Where every candidate that is looked up is found, reducing a variable cannot fail. -/
theorem reduce_of_candidatesFound
    (hparse : Spec.parse (Variables.value p.metadata var) = .ok tree)
    (hfound : r.CandidatesFound p tree) :
    r.reduce p var = .ok (r.leafReduced p tree).simplify.pickFirst.simplify := by
  have hreduced : (tree.decideUse p.useFlags).trySubstitute r.reduceLeaf =
      .ok (r.leafReduced p tree) := by
    apply Spec.trySubstitute_of_leaves
    exact fun leaf hleaf => reduceLeaf_of_candidates (hfound leaf hleaf)
  exact bind_eq_ok_iff.2 ⟨tree, hparse, bind_eq_ok_iff.2 ⟨_, hreduced, rfl⟩⟩

/-- Reduced leaves are constants and atoms, so a value that only offers alternatives still
does with its conditions decided and its leaves reduced. -/
theorem isPlain_leafReduced (hone : tree.asExpr.Avoids .exactlyOneOf)
    (hmost : tree.asExpr.Avoids .atMostOneOf) : (r.leafReduced p tree).asExpr.IsPlain := by
  have hleaf : ∀ k : Expr.Kind, k ≠ .allOf → k ≠ .anyOf → k ≠ .package →
      ∀ atom blocking, (r.leafExpr atom blocking).Avoids k := by
    intro k hall hany hpackage atom blocking
    rcases leafExpr_cases r atom blocking with heq | heq | heq
    · rw [heq]
      exact Expr.avoids_true hall
    · rw [heq]
      exact Expr.avoids_false hany
    · rw [heq]
      exact Expr.avoids_iff.2 ⟨hpackage.symm, by simp [Expr.children]⟩
  have hdecided : ∀ k : Expr.Kind, k ≠ .allOf → tree.asExpr.Avoids k →
      (tree.decideUse p.useFlags).asExpr.Avoids k :=
    fun k hall h => Expr.avoids_decideUse_of_avoids hall p.useFlags h
  exact ⟨Expr.avoids_substitute (avoids_leafExpr r) (Expr.avoids_decideUse p.useFlags tree.asExpr),
    Expr.avoids_substitute (hleaf _ (by decide) (by decide) (by decide))
      (hdecided _ (by decide) hone),
    Expr.avoids_substitute (hleaf _ (by decide) (by decide) (by decide))
      (hdecided _ (by decide) hmost)⟩

/-- A value can hold exactly when the reduced value does with all its atoms true. -/
theorem isSatisfiable_eq_holds (r : Resolver) (p : Package) (tree : Spec) :
    r.isSatisfiable p tree =
      (r.leafReduced p tree).asExpr.holds (Expr.leafHolds fun _ => true) p.useFlags := by
  have hleaves : (fun atom blocking =>
      (r.leafExpr atom blocking).holds (Expr.leafHolds fun _ => true) p.useFlags) =
        r.leafTruth fun _ => true := by
    funext atom blocking
    exact holds_leafExpr (fun _ => true) p.useFlags atom blocking
  have hexpr : (r.leafReduced p tree).asExpr =
      (tree.decideUse p.useFlags).asExpr.substitute r.leafExpr := rfl
  rw [hexpr, Expr.holds_substitute, hleaves, isSatisfiable]

/-! ## Extracted atoms -/

section Declared

variable (hparse : Spec.parse (Variables.value p.metadata var) = .ok tree)
  (hone : tree.asExpr.Avoids .exactlyOneOf) (hmost : tree.asExpr.Avoids .atMostOneOf)
  (hfound : r.CandidatesFound p tree)
include hparse hone hmost hfound

/-- The atoms of a value that can hold are found. -/
theorem declared_of_isSatisfiable (h : r.isSatisfiable p tree = true) :
    ∃ declared, r.declared p var = .ok declared := by
  have hplain : (r.leafReduced p tree).asExpr.IsPlain := isPlain_leafReduced hone hmost
  rw [isSatisfiable_eq_holds, Spec.holds_iff_simplify_ne_false hplain] at h
  obtain ⟨hfalse, declared, hdeclared⟩ := Spec.exists_decidedAtoms hplain h
  refine ⟨declared, bind_eq_ok_iff.2 ⟨_, reduce_of_candidatesFound hparse hfound, ?_⟩⟩
  simpa [hfalse] using hdeclared

/-- A value that cannot hold is refused as unsatisfiable. -/
theorem declared_of_not_isSatisfiable (h : r.isSatisfiable p tree = false) :
    r.declared p var =
      .error (.unsatisfiable var p.name (Variables.value p.metadata var)) := by
  have hplain : (r.leafReduced p tree).asExpr.IsPlain := isPlain_leafReduced hone hmost
  have hfolds : (r.leafReduced p tree).asExpr.simplify = Expr.false_ := by
    by_contra hne
    rw [isSatisfiable_eq_holds, (Spec.holds_iff_simplify_ne_false hplain p.useFlags).2 hne] at h
    cases h
  have hfalse := Spec.any_isFalse_of_simplify_eq_false hfolds
  rw [declared, reduce_of_candidatesFound hparse hfound]
  simp [bind, Except.bind, hfalse]
  rfl

end Declared

/-- Without forced dependencies, and where all candidates and further dependencies can be
read, the dependencies of a package are found exactly when the value of the variable can
hold, and else it is refused as unsatisfiable: if the value only offers alternatives, none is
left undecided. -/
theorem dependencies_eq_ok_iff_isSatisfiable (r : Resolver) (p : Package) (var : String)
    (tree : Spec) (hunforced : r.settings.overrides.forcedDependencies.get? p.name = none)
    (hparse : Spec.parse (Variables.value p.metadata var) = .ok tree)
    (hone : tree.asExpr.Avoids .exactlyOneOf) (hmost : tree.asExpr.Avoids .atMostOneOf)
    (hfound : r.CandidatesFound p tree)
    (hextra : ∃ extra, r.settings.overrides.extraAtoms p.name var = .ok extra) :
    ((∃ atoms, r.dependencies p var = .ok atoms) ↔ r.isSatisfiable p tree = true) ∧
      (r.isSatisfiable p tree = false → r.dependencies p var =
        .error (.unsatisfiable var p.name (Variables.value p.metadata var))) := by
  have hforced : r.settings.overrides.forcedAtoms p.name = .ok none := by
    rw [Overrides.forcedAtoms, hunforced]
  obtain ⟨extra, hextra⟩ := hextra
  have hrefused : r.isSatisfiable p tree = false → r.dependencies p var =
      .error (.unsatisfiable var p.name (Variables.value p.metadata var)) := by
    intro h
    rw [dependencies, hforced]
    simp only [bind, Except.bind, declared_of_not_isSatisfiable hparse hone hmost hfound h]
  refine ⟨⟨?_, ?_⟩, hrefused⟩
  · rintro ⟨atoms, hatoms⟩
    by_contra h
    rw [hrefused (by simpa using h)] at hatoms
    cases hatoms
  · intro h
    obtain ⟨declared, hdeclared⟩ := declared_of_isSatisfiable hparse hone hmost hfound h
    exact ⟨declared ++ extra, bind_eq_ok_iff.2 ⟨none, hforced,
      bind_eq_ok_iff.2 ⟨declared, hdeclared, bind_eq_ok_iff.2 ⟨extra, hextra, rfl⟩⟩⟩⟩

/-! ## Alternatives of which some can be had -/

/-- A package of one name, whatever its version. -/
def leafOfName (name : String) : Expr :=
  .package (.ofName name) .none

/-- A resolver with one ebuild and one package that counts as installed.  With its slot the ebuild
is out of reach, and in the place of another package there is a file, so that this one cannot be
looked up. -/
def limitedResolver : Resolver where
  tree := {
    root := .directory [("overlay", .directory [("dev-libs", .directory [
      ("b", .directory [("b-1.ebuild", .file (.text "EAPI=7\nSLOT=0\n"))]),
      ("old", .file (.text ""))])])]
    workingDirectory := ⟨"/"⟩ }
  repositories := ⟨[⟨⟨"/overlay"⟩, "overlay", "7"⟩]⟩
  config := .fixed "" [⟨"virtual/installed", Version.zero⟩]
  settings := { overrides := { unavailable := [{ package := "dev-libs/b", slots := ["0"] }] } }

/-- A package that offers alternatives at run time and afterwards.  Of the former one can be
had, of the latter none. -/
def offeringPackage : Package where
  path := ⟨"/overlay/dev-libs/a/a-0.ebuild"⟩
  name := "dev-libs/a"
  version := Version.zero
  info := {
    metadata := NameMap.ofList [
      ("PDEPEND", "virtual/installed || ( dev-libs/b:0 ssl? ( dev-libs/gone dev-libs/b ) )"),
      ("RDEPEND", "!dev-libs/old || ( dev-libs/b:0 dev-libs/missing " ++
        "( virtual/installed dev-libs/b ) )")]
    useFlags := NameSet.ofList ["ssl"] }

/-- The atom that is out of reach, although there is an ebuild for it. -/
def excludedAtom : Atom :=
  ⟨"dev-libs/b", none, "0", []⟩

/-- The alternatives that the package offers at run time. -/
def offeredAtRuntime : Spec :=
  ⟨[.package (.ofName "dev-libs/old") .weak,
    .anyOf [.package excludedAtom .none, leafOfName "dev-libs/missing",
      .allOf [leafOfName "virtual/installed", leafOfName "dev-libs/b"]]]⟩

/-- The alternatives that the package offers afterwards. -/
def offeredAfterwards : Spec :=
  ⟨[leafOfName "virtual/installed",
    .anyOf [.package excludedAtom .none,
      .useConditional "ssl" true [leafOfName "dev-libs/gone", leafOfName "dev-libs/b"]]]⟩

/-- All leaves that are looked up have candidates that can be listed, if only none. -/
theorem candidatesFound_offered : ∀ tree ∈ [offeredAtRuntime, offeredAfterwards],
    limitedResolver.CandidatesFound offeringPackage tree := by
  have hfound : ∀ tree ∈ [offeredAtRuntime, offeredAfterwards],
      ∀ leaf ∈ (tree.decideUse offeringPackage.useFlags).leaves, leaf.2.isBlocked = false →
        (limitedResolver.candidates leaf.1).isOk = true := by
    decide +kernel
  intro tree htree leaf hleaf hlookedUp
  exact isOk_iff_exists.1 (hfound tree htree leaf hleaf hlookedUp.unblocked)

/-- Of the alternatives at run time one is found, although the blocked package cannot be looked
up.  Those afterwards are refused, since what is out of reach counts as false. -/
theorem dependencies_offeringPackage :
    Spec.parse (Variables.value offeringPackage.metadata "RDEPEND") = .ok offeredAtRuntime ∧
      Spec.parse (Variables.value offeringPackage.metadata "PDEPEND") = .ok offeredAfterwards ∧
      (limitedResolver.candidates (.ofName "dev-libs/old")).isOk = false ∧
      limitedResolver.settings.overrides.excludes excludedAtom = true ∧
      (limitedResolver.candidates excludedAtom).toOption.map List.length = some 1 ∧
      ((∃ atoms, limitedResolver.dependencies offeringPackage "RDEPEND" = .ok atoms) ↔
        limitedResolver.isSatisfiable offeringPackage offeredAtRuntime = true) ∧
      limitedResolver.isSatisfiable offeringPackage offeredAtRuntime = true ∧
      limitedResolver.dependencies offeringPackage "PDEPEND" =
        .error (.unsatisfiable "PDEPEND" "dev-libs/a"
          (Variables.value offeringPackage.metadata "PDEPEND")) := by
  have hunforced :
      limitedResolver.settings.overrides.forcedDependencies.get? offeringPackage.name = none :=
    rfl
  have hruntime : Spec.parse (Variables.value offeringPackage.metadata "RDEPEND") =
      .ok offeredAtRuntime :=
    toOption_eq_some_iff.1 (by decide +kernel)
  have hafterwards : Spec.parse (Variables.value offeringPackage.metadata "PDEPEND") =
      .ok offeredAfterwards :=
    toOption_eq_some_iff.1 (by decide +kernel)
  have hmet := dependencies_eq_ok_iff_isSatisfiable limitedResolver offeringPackage "RDEPEND"
    offeredAtRuntime hunforced hruntime (by decide +kernel) (by decide +kernel)
    (candidatesFound_offered _ (by simp)) ⟨[], rfl⟩
  have hrefused := dependencies_eq_ok_iff_isSatisfiable limitedResolver offeringPackage "PDEPEND"
    offeredAfterwards hunforced hafterwards (by decide +kernel) (by decide +kernel)
    (candidatesFound_offered _ (by simp)) ⟨[], rfl⟩
  exact ⟨hruntime, hafterwards, by decide +kernel, by decide +kernel, by decide +kernel, hmet.1,
    by decide +kernel, hrefused.2 (by decide +kernel)⟩

end Resolver
end EbuildGraph
