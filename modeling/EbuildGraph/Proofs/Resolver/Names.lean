import EbuildGraph.Proofs.Dependency.Reading
import EbuildGraph.Proofs.Resolver.Requirements
import EbuildGraph.Resolver.Search

/-!
# Names of required packages

What a package requires was read from its metadata or from the overrides, and what is read
names packages as packages are named.

Main definitions:

- {lit}`Eapi.BuildsWith`: the variables that list build dependencies at a level.
- {lit}`Resolver.IsBuiltWith`, {lit}`Resolver.IsRunWith`, {lit}`Resolver.IsNeed`: the atoms that
  a package needs to be built, to run, or for either.
- {lit}`Resolver.Reached`: the atoms that those asked for lead to.

Main results:

- Theorem {lit}`requirements_eq_ok`: the variables that requirements come from.
- Theorems {lit}`mem_build_iff`, {lit}`mem_runtime_iff`: what is required for building and at run
  time.
- Theorem {lit}`isQualified_of_requires`: every required atom has a checked name.
-/

namespace EbuildGraph

/-- A variable lists what is needed to build: {lit}`DEPEND` at every level, and from level seven
on {lit}`BDEPEND`, which is for the building machine. -/
def Eapi.BuildsWith (e : Eapi) (var : String) : Prop :=
  var = "DEPEND" ∨ var = "BDEPEND" ∧ 7 ≤ e.level.val

/-- The variables of the build, spelled out for each dialect. -/
theorem Eapi.mem_buildVariables_iff {e : Eapi} {var : String} :
    var ∈ e.buildVariables ↔ e.BuildsWith var := by
  unfold buildVariables hasBuildHostDependencies BuildsWith
  split <;> simp_all

namespace Resolver

open Dependency

variable {r : Resolver} {p : Package} {var : String}

/-! ## Variables -/

/-- Requirements come from the variables for each purpose. -/
theorem requirements_eq_ok {required : Requirements} (h : r.requirements p = .ok required) :
    ∃ runtime eapi build, r.dependencies p "RDEPEND" = .ok runtime ∧ p.eapi = .ok eapi ∧
      eapi.buildVariables.mapM (r.dependencies p) = .ok build ∧
      required.build = build.flatten ∧ r.dependencies p "PDEPEND" = .ok required.post ∧
      required.runtime = if isRustSource p then runtime ++ build.flatten else runtime := by
  obtain ⟨runtime, hruntime, h⟩ := bind_eq_ok_iff.1 h
  obtain ⟨eapi, heapi, h⟩ := bind_eq_ok_iff.1 h
  obtain ⟨build, hbuild, h⟩ := bind_eq_ok_iff.1 h
  obtain ⟨post, hpost, h⟩ := bind_eq_ok_iff.1 h
  obtain rfl := Except.ok.inj h
  exact ⟨runtime, eapi, build, hruntime, heapi, hbuild, rfl, hpost, rfl⟩

/-- The post dependencies of a package are read from their own variable. -/
theorem post_of_requirements {required : Requirements} (h : r.requirements p = .ok required) :
    r.dependencies p "PDEPEND" = .ok required.post := by
  obtain ⟨_, _, _, _, _, _, _, hpost, _⟩ := requirements_eq_ok h
  exact hpost

/-- An atom comes from a variable that lists what a package needs to be built. -/
def IsBuiltWith (r : Resolver) (p : Package) (a : Atom) : Prop :=
  ∃ eapi var atoms, p.eapi = .ok eapi ∧ eapi.BuildsWith var ∧ r.dependencies p var = .ok atoms ∧
    a ∈ atoms

/-- An atom comes from the variable that lists what a package needs at run time. -/
def IsRunWith (r : Resolver) (p : Package) (a : Atom) : Prop :=
  ∃ atoms, r.dependencies p "RDEPEND" = .ok atoms ∧ a ∈ atoms

/-- A package needs an atom at run time or through a variable that it is built with. -/
def IsNeed (r : Resolver) (p : Package) (a : Atom) : Prop :=
  r.IsRunWith p a ∨ r.IsBuiltWith p a

/-- A package only carries Rust sources: it inherits {lit}`cros-rust` but not {lit}`cros-workon`,
and it says that it compiles nothing. -/
def IsSourceCrate (p : Package) : Prop :=
  "cros-rust" ∈ Variables.list p.metadata "INHERITED" ∧
    "cros-workon" ∉ Variables.list p.metadata "INHERITED" ∧
      Variables.value p.metadata "HAS_SRC_COMPILE" = "0"

/-- The test for crates that are only built as sources, spelled out. -/
theorem isRustSource_eq_true_iff : isRustSource p = true ↔ IsSourceCrate p := by
  simp [isRustSource, IsSourceCrate, Package.inherits, and_assoc]

/-- What is required for building is what a package is built with. -/
theorem mem_build_iff {required : Requirements} (h : r.requirements p = .ok required) {a : Atom} :
    a ∈ required.build ↔ r.IsBuiltWith p a := by
  obtain ⟨_, eapi, build, _, heapi, hbuild, hbuildEq, _⟩ := requirements_eq_ok h
  rw [hbuildEq, List.mem_flatten]
  constructor
  · rintro ⟨atoms, hatoms, hmem⟩
    obtain ⟨var, hvar, heq⟩ := exists_of_mem_mapM hbuild hatoms
    exact ⟨eapi, var, atoms, heapi, Eapi.mem_buildVariables_iff.1 hvar, heq, hmem⟩
  · rintro ⟨eapi', var, atoms, heapi', hvar, heq, hmem⟩
    obtain rfl : eapi = eapi' := Except.ok.inj (heapi.symm.trans heapi')
    have hatoms := (mem_iff_of_mapM hbuild).2 ⟨var, Eapi.mem_buildVariables_iff.2 hvar, heq⟩
    exact ⟨atoms, hatoms, hmem⟩

/-- What is required at run time is what a package needs then, and for one that only carries
sources also what it is built with. -/
theorem mem_runtime_iff {required : Requirements} (h : r.requirements p = .ok required)
    {a : Atom} : a ∈ required.runtime ↔
      r.IsRunWith p a ∨ IsSourceCrate p ∧ r.IsBuiltWith p a := by
  obtain ⟨runtime, _, _, hruntime, _, _, hbuildEq, _, hruntimeEq⟩ := requirements_eq_ok h
  have hrun : a ∈ runtime ↔ r.IsRunWith p a := by
    refine ⟨fun hmem => ⟨runtime, hruntime, hmem⟩, ?_⟩
    rintro ⟨atoms, hatoms, hmem⟩
    rwa [Except.ok.inj (hruntime.symm.trans hatoms)]
  rw [hruntimeEq, ← isRustSource_eq_true_iff, ← mem_build_iff h, hbuildEq, ← hrun]
  split <;> simp_all

/-- What is required at run time or for building is needed. -/
theorem isNeed_of_requirements {required : Requirements} (h : r.requirements p = .ok required) :
    ∀ a ∈ required.runtime ++ required.build, r.IsNeed p a := by
  intro a ha
  rcases List.mem_append.1 ha with hrun | hbuild
  · exact ((mem_runtime_iff h).1 hrun).imp_right And.right
  · exact Or.inr ((mem_build_iff h).1 hbuild)

/-- An atom is among those that requirements name for some purpose. -/
def Requirements.Names (required : Requirements) (a : Atom) : Prop :=
  a ∈ required.runtime ∨ a ∈ required.build ∨ a ∈ required.post

/-- Every required atom comes from some variable. -/
theorem exists_dependencies_of_names {required : Requirements}
    (h : r.requirements p = .ok required) {a : Atom} (ha : required.Names a) :
    ∃ var atoms, r.dependencies p var = .ok atoms ∧ a ∈ atoms := by
  have hofNeed : r.IsNeed p a → ∃ var atoms, r.dependencies p var = .ok atoms ∧ a ∈ atoms := by
    rintro (⟨atoms, hatoms, hmem⟩ | ⟨_, var, atoms, _, _, hatoms, hmem⟩)
    · exact ⟨_, atoms, hatoms, hmem⟩
    · exact ⟨var, atoms, hatoms, hmem⟩
  rcases ha with hrun | hbld | hpst
  · exact hofNeed (isNeed_of_requirements h a (List.mem_append_left _ hrun))
  · exact hofNeed (isNeed_of_requirements h a (List.mem_append_right _ hbld))
  · exact ⟨_, _, post_of_requirements h, hpst⟩

/-! ## Names -/

/-- Atoms that are read from text have a category and a package. -/
theorem isQualified_of_readAtoms {texts : List String} {atoms : List Atom}
    (h : Overrides.readAtoms texts = .ok atoms) : ∀ a ∈ atoms, a.IsQualified := by
  intro a ha
  obtain ⟨s, _, hs⟩ := exists_of_mem_mapM h ha
  exact Atom.isQualified_of_parse (mapError_eq_ok_iff.1 hs)

/-- Declared dependencies have a category and a package. -/
theorem isQualified_of_declared {atoms : List Atom} (h : r.declared p var = .ok atoms) :
    ∀ a ∈ atoms, a.IsQualified := by
  intro a ha
  obtain ⟨spec, hreduce, _, hatoms⟩ := declared_eq_ok h
  obtain ⟨tree, hparse, rfl⟩ := reduce_eq_ok hreduce
  rw [Spec.decidedAtoms_eq_ok hatoms] at ha
  obtain ⟨leaf, hleaf, rfl⟩ := List.mem_map.1 ha
  have hrest := (Spec.leaves_simplify_sublist _).subset (List.mem_of_mem_filter hleaf)
  have hpicked := (Spec.leaves_pickFirst_sublist _).subset hrest
  have hsimplified := (Spec.leaves_simplify_sublist _).subset hpicked
  obtain ⟨replaced, hreplaced, hin⟩ := Spec.mem_leaves_substitute hsimplified
  have hparsed := (Spec.leaves_decideUse_sublist _ _).subset hreplaced
  have hqualified := Spec.isQualified_of_parse hparse replaced hparsed
  rcases leafExpr_cases r replaced.1 replaced.2 with heq | heq | heq
  · rw [heq] at hin
    exact absurd hin List.not_mem_nil
  · rw [heq] at hin
    exact absurd hin List.not_mem_nil
  · rw [heq] at hin
    obtain rfl : leaf = (replaced.1, .none) := List.mem_singleton.1 hin
    exact hqualified

/-- All dependencies of a package, forced and extra ones included, have a category and a package. -/
theorem isQualified_of_dependencies {atoms : List Atom} (h : r.dependencies p var = .ok atoms) :
    ∀ a ∈ atoms, a.IsQualified := by
  obtain ⟨forced, hforced, h⟩ := bind_eq_ok_iff.1 h
  cases forced with
  | some forced =>
    have hqualified : ∀ a ∈ forced, a.IsQualified := by
      unfold Overrides.forcedAtoms at hforced
      split at hforced
      · cases hforced
      · obtain ⟨atoms, hread, heq⟩ := map_eq_ok_iff.1 hforced
        cases heq
        exact isQualified_of_readAtoms hread
    intro a ha
    rw [← Except.ok.inj h] at ha
    split at ha
    · exact hqualified a ha
    · exact absurd ha List.not_mem_nil
  | none =>
    obtain ⟨declared, hdeclared, h⟩ := bind_eq_ok_iff.1 h
    obtain ⟨extra, hextra, h⟩ := bind_eq_ok_iff.1 h
    have hqualified : ∀ a ∈ extra, a.IsQualified := by
      unfold Overrides.extraAtoms at hextra
      split at hextra
      · obtain rfl := Except.ok.inj hextra
        exact nofun
      · exact isQualified_of_readAtoms hextra
    intro a ha
    rw [← Except.ok.inj h] at ha
    rcases List.mem_append.1 ha with hmem | hmem
    · exact isQualified_of_declared hdeclared a hmem
    · exact hqualified a hmem

/-- Every required atom has a checked name. -/
theorem isQualified_of_requires {required : Requirements} (h : r.requirements p = .ok required)
    {a : Atom} (ha : required.Names a) : a.IsQualified := by
  obtain ⟨var, atoms, hatoms, hmem⟩ := exists_dependencies_of_names h ha
  exact isQualified_of_dependencies hatoms a hmem

/-! ## Atoms that others lead to -/

/-- An atom is asked for, or the package selected for such an atom requires it. -/
inductive Reached (r : Resolver) (roots : List Atom) : Atom → Prop
  | root {a : Atom} (h : a ∈ roots) : Reached r roots a
  | required {a b : Atom} {σ : Selection} {required : Requirements} (ha : Reached r roots a)
      (hselect : r.select a = .ok σ) (hrequires : r.requirements σ.package = .ok required)
      (hb : required.Names b) : Reached r roots b

/-- All that the package selected for a reached atom needs is reached. -/
theorem Reached.needs {roots : List Atom} {a : Atom} {σ : Selection} {required : Requirements}
    (ha : Reached r roots a) (hselect : r.select a = .ok σ)
    (hrequires : r.requirements σ.package = .ok required) :
    ∀ b ∈ required.runtime ++ required.build, Reached r roots b := by
  intro b hb
  refine .required ha hselect hrequires ?_
  rcases List.mem_append.1 hb with hruntime | hbuild
  · exact Or.inl hruntime
  · exact Or.inr (Or.inl hbuild)

/-- Which atoms are reached depends on which atoms are asked for, in whatever order. -/
theorem Reached.congr {xs ys : List Atom} (h : ∀ a ∈ xs, a ∈ ys) {a : Atom}
    (ha : Reached r xs a) : Reached r ys a := by
  induction ha with
  | root hroot => exact .root (h _ hroot)
  | required _ hselect hrequires hb ih => exact .required ih hselect hrequires hb

/-- Only atoms that are asked for may have a name that was not checked. -/
theorem Reached.isQualified {roots : List Atom} {a : Atom} (h : Reached r roots a) :
    a ∈ roots ∨ a.IsQualified := by
  cases h with
  | root hroot => exact Or.inl hroot
  | required _ _ hrequires hb => exact Or.inr (isQualified_of_requires hrequires hb)

/-- From qualified roots only qualified atoms are reached. -/
theorem Reached.isQualified_of_roots {roots : List Atom} {a : Atom} (h : Reached r roots a)
    (hroots : ∀ a ∈ roots, a.IsQualified) : a.IsQualified :=
  h.isQualified.elim (hroots a) id

end Resolver
end EbuildGraph
