import EbuildGraph.Proofs.Dependency.Extraction
import EbuildGraph.Proofs.Dependency.Rewriting
import EbuildGraph.Resolver.Requirements

/-!
# Soundness of requirements

The atoms that a package is said to require are enough: whatever makes all of them true
makes the dependency true from which they were taken, with its conditions decided by the
flags of the package.

Main results:

- Theorem {lit}`holds_leafExpr`: a reduced leaf is as true as the leaf counts.
- Theorem {lit}`dependencies_eq_ok`: what a successful extraction of atoms went through.
- Theorem {lit}`holds_of_dependencies`: the atoms of a dependency are enough for it.
-/

namespace EbuildGraph
namespace Resolver

open Dependency

variable {r : Resolver} {p : Package} {var : String}

/-! ## Truth of leaves -/

/-- The truth of a leaf when the truth of atoms is given.  A blocked package is taken to
be away and a provided one to be there, and what cannot be had is false. -/
def leafTruth (r : Resolver) (assign : Atom → Bool) (atom : Atom) (blocking : Blocking) : Bool :=
  if blocking.isBlocked then true
  else if r.settings.overrides.excludes atom then false
  else if r.provides atom then true
  else
    match r.candidates atom with
    | .ok [] => false
    | _ => assign atom

/-- What a leaf amounts to; one that cannot be reduced stays. -/
def leafExpr (r : Resolver) (atom : Atom) (blocking : Blocking) : Expr :=
  match r.reduceLeaf atom blocking with
  | .ok e => e
  | .error _ => .package atom .none

theorem leafExpr_eq {atom : Atom} {blocking : Blocking} {e : Expr}
    (h : r.reduceLeaf atom blocking = .ok e) : r.leafExpr atom blocking = e := by
  rw [leafExpr, h]

/-- A leaf becomes a constant or an atom that is not blocked. -/
theorem leafExpr_cases (r : Resolver) (atom : Atom) (blocking : Blocking) :
    r.leafExpr atom blocking = Expr.true_ ∨ r.leafExpr atom blocking = Expr.false_ ∨
      r.leafExpr atom blocking = .package atom .none := by
  unfold leafExpr reduceLeaf
  by_cases hblocked : blocking.isBlocked = true
  · exact Or.inl (by simp [hblocked])
  by_cases hexcluded : r.settings.overrides.excludes atom = true
  · exact Or.inr (Or.inl (by simp [hblocked, hexcluded]))
  by_cases hprovided : r.provides atom = true
  · exact Or.inl (by simp [hblocked, hexcluded, hprovided])
  rcases hfound : r.candidates atom with err | _ | ⟨first, rest⟩
  · exact Or.inr (Or.inr (by simp [hblocked, hexcluded, hprovided, Except.map]))
  · exact Or.inr (Or.inl (by simp [hblocked, hexcluded, hprovided, Except.map]))
  · exact Or.inr (Or.inr (by simp [hblocked, hexcluded, hprovided, Except.map]))

/-- A reduced leaf is as true as the leaf counts. -/
theorem holds_leafExpr (assign : Atom → Bool) (flags : NameSet) (atom : Atom)
    (blocking : Blocking) :
    (r.leafExpr atom blocking).holds (Expr.leafHolds assign) flags =
      r.leafTruth assign atom blocking := by
  unfold leafExpr reduceLeaf leafTruth
  by_cases hblocked : blocking.isBlocked = true
  · simp [hblocked]
  by_cases hexcluded : r.settings.overrides.excludes atom = true
  · simp [hblocked, hexcluded]
  by_cases hprovided : r.provides atom = true
  · simp [hblocked, hexcluded, hprovided]
  have hatom : (Expr.package atom .none).holds (Expr.leafHolds assign) flags = assign atom := by
    simp [Expr.holds, Expr.leafHolds, Blocking.isBlocked]
  rcases hfound : r.candidates atom with err | _ | ⟨first, rest⟩
  · simp [hblocked, hexcluded, hprovided, Except.map, hatom]
  · simp [hblocked, hexcluded, hprovided, Except.map]
  · simp [hblocked, hexcluded, hprovided, Except.map, hatom]

/-- What a leaf is replaced by has no condition in it. -/
theorem avoids_leafExpr (r : Resolver) (atom : Atom) (blocking : Blocking) :
    (r.leafExpr atom blocking).Avoids .useConditional := by
  rcases leafExpr_cases r atom blocking with heq | heq | heq
  · rw [heq]
    exact Expr.avoids_true (by decide)
  · rw [heq]
    exact Expr.avoids_false (by decide)
  · rw [heq]
    exact Expr.avoids_iff.2 ⟨by simp [Expr.kind], by simp [Expr.children]⟩

/-! ## Steps of a successful extraction -/

/-- A variable that can be reduced was parsed and went through the passes in order. -/
theorem reduce_eq_ok {spec : Spec} (h : r.reduce p var = .ok spec) :
    ∃ tree, Spec.parse (Variables.value p.metadata var) = .ok tree ∧
      spec = ((tree.decideUse p.useFlags).substitute r.leafExpr).simplify.pickFirst.simplify := by
  obtain ⟨tree, hparse, hrest⟩ := bind_eq_ok_iff.1 h
  obtain ⟨reduced, hreduced, hspec⟩ := bind_eq_ok_iff.1 hrest
  have heq : reduced = (tree.decideUse p.useFlags).substitute r.leafExpr :=
    Spec.trySubstitute_eq_ok (fun _ _ _ => leafExpr_eq) hreduced
  refine ⟨tree, hparse, ?_⟩
  rw [← heq]
  exact (Except.ok.inj hspec).symm

/-- Declared dependencies are the atoms of a reduced tree in which no requirement is false. -/
theorem declared_eq_ok {declared : List Atom} (h : r.declared p var = .ok declared) :
    ∃ spec, r.reduce p var = .ok spec ∧ spec.children.any Expr.isFalse = false ∧
      spec.decidedAtoms = .ok declared := by
  obtain ⟨spec, hspec, hrest⟩ := bind_eq_ok_iff.1 h
  refine ⟨spec, hspec, ?_⟩
  by_cases hfalse : spec.children.any Expr.isFalse = true
  · simp [hfalse] at hrest
    cases hrest
  · simp [hfalse] at hrest
    exact ⟨by simpa using hfalse, hrest⟩

/-- Without forced dependencies, the atoms of a variable are those of its value with the
further ones of the overrides behind them. -/
theorem dependencies_eq_ok {atoms : List Atom}
    (hunforced : r.settings.overrides.forcedDependencies.get? p.name = none)
    (h : r.dependencies p var = .ok atoms) :
    ∃ declared extra, r.declared p var = .ok declared ∧
      r.settings.overrides.extraAtoms p.name var = .ok extra ∧ atoms = declared ++ extra := by
  have hforced : r.settings.overrides.forcedAtoms p.name = .ok none := by
    rw [Overrides.forcedAtoms, hunforced]
  obtain ⟨forced, hnone, hrest⟩ := bind_eq_ok_iff.1 h
  obtain rfl : none = forced := Except.ok.inj (hforced.symm.trans hnone)
  obtain ⟨declared, hdeclared, hrest⟩ := bind_eq_ok_iff.1 hrest
  obtain ⟨extra, hextra, hatoms⟩ := bind_eq_ok_iff.1 hrest
  exact ⟨declared, extra, hdeclared, hextra, (Except.ok.inj hatoms).symm⟩

/-! ## Soundness -/

/-- The atoms of a value are enough for it: when they are all true, so is the value with
its conditions decided. -/
theorem holds_of_declared {declared : List Atom} (h : r.declared p var = .ok declared) :
    ∃ tree, Spec.parse (Variables.value p.metadata var) = .ok tree ∧
      ∀ (assign : Atom → Bool) (flags : NameSet), (∀ atom ∈ declared, assign atom = true) →
        (tree.decideUse p.useFlags).asExpr.holds (r.leafTruth assign) flags = true := by
  obtain ⟨spec, hreduce, hfalse, hatoms⟩ := declared_eq_ok h
  obtain ⟨tree, hparse, rfl⟩ := reduce_eq_ok hreduce
  refine ⟨tree, hparse, ?_⟩
  intro assign flags hassign
  have hdecided :
      ((tree.decideUse p.useFlags).substitute r.leafExpr).asExpr.Avoids .useConditional :=
    Expr.avoids_substitute (avoids_leafExpr r) (Expr.avoids_decideUse p.useFlags tree.asExpr)
  have hleaves : (fun atom blocking =>
      (r.leafExpr atom blocking).holds (Expr.leafHolds assign) flags) = r.leafTruth assign := by
    funext atom blocking
    exact holds_leafExpr assign flags atom blocking
  have hreduced := Spec.holds_of_decidedAtoms hdecided hfalse hatoms hassign flags
  calc
    (tree.decideUse p.useFlags).asExpr.holds (r.leafTruth assign) flags =
        ((tree.decideUse p.useFlags).asExpr.substitute r.leafExpr).holds (Expr.leafHolds assign)
          flags := by
      rw [Expr.holds_substitute, hleaves]
    _ = true := hreduced

/-- The atoms of a dependency are enough for it.  Without forced dependencies they are
those that the value of the variable gives, and further ones behind them; when those of
the value are true, the value holds with its conditions decided by the package. -/
theorem holds_of_dependencies (r : Resolver) (p : Package) (var : String) (atoms : List Atom)
    (hunforced : r.settings.overrides.forcedDependencies.get? p.name = none)
    (h : r.dependencies p var = .ok atoms) :
    ∃ tree declared extra,
      Spec.parse (Variables.value p.metadata var) = .ok tree ∧
      r.settings.overrides.extraAtoms p.name var = .ok extra ∧
      atoms = declared ++ extra ∧
      ∀ (assign : Atom → Bool) (flags : NameSet), (∀ atom ∈ declared, assign atom = true) →
        (tree.decideUse p.useFlags).asExpr.holds (r.leafTruth assign) flags = true := by
  obtain ⟨declared, extra, hdeclared, hextra, hatoms⟩ := dependencies_eq_ok hunforced h
  obtain ⟨tree, hparse, hholds⟩ := holds_of_declared hdeclared
  exact ⟨tree, declared, extra, hparse, hextra, hatoms, hholds⟩

/-! ## A resolver with one ebuild -/

/-- One ebuild, in the overlay that holds it. -/
def sampleTree : FileTree where
  root := .directory [("overlay", .directory [("dev-libs", .directory [("b", .directory
    [("b-1.ebuild", .file (.text "EAPI=7\nSLOT=0\n"))])])])]
  workingDirectory := ⟨"/"⟩

/-- One ebuild, one package that counts as installed, and one further dependency. -/
def sampleResolver : Resolver where
  tree := sampleTree
  repositories := ⟨[⟨⟨"/overlay"⟩, "overlay", "7"⟩]⟩
  config := .fixed "" [⟨"virtual/installed", Version.zero⟩]
  settings := { overrides := { extraDependencies := NameMap.ofList [("dev-libs/a",
    NameMap.ofList [("RDEPEND", ["dev-libs/c"])])] } }

/-- A package with conditions, groups, a blocked package and one that is installed among
its runtime dependencies. -/
def samplePackage : Package where
  path := ⟨"/overlay/dev-libs/a/a-0.ebuild"⟩
  name := "dev-libs/a"
  version := Version.zero
  info := {
    metadata := NameMap.ofList [("RDEPEND", "gtk? ( dev-libs/gtk ) !dev-libs/old " ++
      "ssl? ( || ( dev-libs/missing ^^ ( dev-libs/missing dev-libs/b ) ) ) virtual/installed")]
    useFlags := NameSet.ofList ["ssl"] }

/-- The sample requires {lit}`dev-libs/b` for its dependencies and {lit}`dev-libs/c`
besides, and whatever makes the former true makes the dependencies true. -/
theorem holds_of_sample_dependencies :
    sampleResolver.dependencies samplePackage "RDEPEND" =
        .ok [⟨"dev-libs/b", none, "", []⟩, ⟨"dev-libs/c", none, "", []⟩] ∧
      ∃ tree declared extra,
        Spec.parse (Variables.value samplePackage.metadata "RDEPEND") = .ok tree ∧
        sampleResolver.settings.overrides.extraAtoms samplePackage.name "RDEPEND" = .ok extra ∧
        [⟨"dev-libs/b", none, "", []⟩, ⟨"dev-libs/c", none, "", []⟩] = declared ++ extra ∧
        ∀ (assign : Atom → Bool) (flags : NameSet), (∀ atom ∈ declared, assign atom = true) →
          (tree.decideUse samplePackage.useFlags).asExpr.holds (sampleResolver.leafTruth assign)
            flags = true := by
  have hunforced : sampleResolver.settings.overrides.forcedDependencies.get? samplePackage.name =
      none := by
    decide +kernel
  have hatoms : (sampleResolver.dependencies samplePackage "RDEPEND").toOption =
      some [⟨"dev-libs/b", none, "", []⟩, ⟨"dev-libs/c", none, "", []⟩] := by
    decide +kernel
  have hok := toOption_eq_some_iff.1 hatoms
  exact ⟨hok, holds_of_dependencies sampleResolver samplePackage "RDEPEND" _ hunforced hok⟩

end Resolver
end EbuildGraph
