import EbuildGraph.Proofs.Resolver.Preference
import EbuildGraph.Proofs.Resolver.Satisfiability

/-!
# Selecting what is required

An atom of a dependency is kept when it has candidates, and alternatives without any are given
up.  Selection asks for more: it leaves out barred ebuilds, and looks for packages of certain
tiers only.  An atom that is kept can therefore be selected just when one of its candidates
meets both demands, and an alternative of which none does may be taken all the same.

Main definitions:

- {lit}`Resolver.HasCandidates`: what it takes for an atom to be kept.
- {lit}`Resolver.IsSelectable`: what selection asks of a candidate besides.

Main results:

- Theorem {lit}`best_of_valid`: when one of the candidates for an atom is selected.
- Theorem {lit}`candidates_of_reduce`: what is left of a value has candidates.
- Theorem {lit}`selectable_of_dependencies`: both together, for the dependencies of a package.
-/

namespace EbuildGraph

/-! ## Alternatives that are left -/

namespace Dependency

/-- No alternative that simplification leaves is false. -/
theorem Expr.IsNormal.ne_false {e c : Expr} {alternatives : List Expr} (h : e.IsNormal)
    (hgroup : .anyOf alternatives ∈ e.nodes) (hc : c ∈ alternatives) : c ≠ Expr.false_ := by
  rcases h _ hgroup with htrue | hfalse | ⟨-, -, hnone⟩
  · cases htrue
  · cases hfalse
    exact absurd hc List.not_mem_nil
  · exact fun heq => hnone (heq ▸ hc)

/-- No alternative of a simplified tree is the constant false. -/
theorem Spec.ne_false_of_simplify {d : Spec} {c : Expr} {alternatives : List Expr}
    (hgroup : .anyOf alternatives ∈ d.simplify.asExpr.nodes) (hc : c ∈ alternatives) :
    c ≠ Expr.false_ := by
  obtain hroot | ⟨child, hchild, hbelow⟩ := Expr.mem_nodes_iff.1 hgroup
  · cases hroot
  · have hnormal := (Expr.isNormal_simplify d.asExpr).of_mem_allOfChildren hchild
    exact hnormal.ne_false hbelow hc

end Dependency

namespace Resolver

open Dependency

variable {r : Resolver} {a : Atom} {p : Package} {var : String}

/-! ## Candidates that are selected -/

/-- What selection asks of a candidate: its ebuild is not barred and it is of a tier in order. -/
def IsSelectable (r : Resolver) (p : Package) : Prop :=
  r.isBarred p = false ∧ ∃ tier ∈ r.settings.stabilityOrder, p.stability = .ok tier

/-- Where the stability of all candidates that are not barred can be told, selection only fails
for want of one that is selectable. -/
theorem best_eq_error_iff_of_valid {packages : List Package} {err : Error}
    (hcandidates : r.candidates a = .ok packages)
    (hvalid : ∀ q ∈ packages, r.isBarred q = false → ∃ tier, q.stability = .ok tier) :
    r.best a = .error err ↔
      (∀ q ∈ packages, ¬ r.IsSelectable q) ∧ err = .noCandidate a.text := by
  have hchoices : r.choices a = .ok (packages.filter fun p => !r.isBarred p) :=
    map_eq_ok_iff.2 ⟨packages, hcandidates, rfl⟩
  have hmem : ∀ q, (q ∈ packages.filter fun p => !r.isBarred p) ↔
      q ∈ packages ∧ r.isBarred q = false := by simp
  rw [best_eq_error_iff, hchoices]
  constructor
  · rintro (hlisting | ⟨found, hfound, ⟨tier, -, hfirst⟩ | ⟨hpassed, herr⟩⟩)
    · cases hlisting
    · obtain rfl := Except.ok.inj hfound
      obtain ⟨before, q, after, hsplit, -, hq⟩ := firstOfTier?_eq_error_iff.1 hfirst
      obtain ⟨hin, hpermitted⟩ := (hmem q).1 (hsplit ▸ by simp)
      obtain ⟨tier, htier⟩ := hvalid q hin hpermitted
      exact absurd (hq.symm.trans htier) nofun
    · obtain rfl := Except.ok.inj hfound
      refine ⟨?_, herr⟩
      rintro q hq ⟨hpermitted, tier, htier, hstability⟩
      obtain ⟨found, hfound, hne⟩ := hpassed tier htier q ((hmem q).2 ⟨hq, hpermitted⟩)
      exact hne (Except.ok.inj (hfound.symm.trans hstability))
  · rintro ⟨hnone, herr⟩
    refine Or.inr ⟨_, rfl, Or.inr ⟨fun tier htier q hq => ?_, herr⟩⟩
    obtain ⟨hq, hpermitted⟩ := (hmem q).1 hq
    obtain ⟨found, hfound⟩ := hvalid q hq hpermitted
    exact ⟨found, hfound, fun heq => hnone q hq ⟨hpermitted, tier, htier, heq ▸ hfound⟩⟩

/-- Where the stability of all candidates that are not barred can be told, one of them is
selected when one is selectable, and else there is no candidate to select. -/
theorem best_of_valid {packages : List Package} (hcandidates : r.candidates a = .ok packages)
    (hvalid : ∀ q ∈ packages, r.isBarred q = false → ∃ tier, q.stability = .ok tier) :
    ((∃ q, r.best a = .ok q) ↔ ∃ q ∈ packages, r.IsSelectable q) ∧
      ((∀ q ∈ packages, ¬ r.IsSelectable q) → r.best a = .error (.noCandidate a.text)) := by
  have hfails : (∀ q ∈ packages, ¬ r.IsSelectable q) → r.best a = .error (.noCandidate a.text) :=
    fun hnone => (best_eq_error_iff_of_valid hcandidates hvalid).2 ⟨hnone, rfl⟩
  refine ⟨⟨?_, ?_⟩, hfails⟩
  · rintro ⟨q, hq⟩
    by_contra hnone
    have herror := hfails fun s hs hselectable => hnone ⟨s, hs, hselectable⟩
    exact absurd (hq.symm.trans herror) nofun
  · rintro ⟨q, hq, hselectable⟩
    cases hbest : r.best a with
    | ok found => exact ⟨found, rfl⟩
    | error err =>
      have hnone := ((best_eq_error_iff_of_valid hcandidates hvalid).1 hbest).1
      exact absurd hselectable (hnone q hq)

/-! ## Atoms that are kept -/

/-- Whether there are candidates for an atom. -/
def HasCandidates (r : Resolver) (a : Atom) : Prop :=
  ∃ packages, r.candidates a = .ok packages ∧ packages ≠ []

/-- A leaf that was reduced to an atom has candidates. -/
theorem hasCandidates_of_leafExpr {atom : Atom} {blocking : Blocking} {e : Expr}
    {leaf : Atom × Blocking} (hreduced : r.reduceLeaf atom blocking = .ok e)
    (hleaf : leaf ∈ (r.leafExpr atom blocking).leaves) : r.HasCandidates leaf.1 := by
  rw [leafExpr_eq hreduced] at hleaf
  unfold reduceLeaf at hreduced
  split at hreduced
  · cases hreduced
    exact absurd hleaf List.not_mem_nil
  split at hreduced
  · cases hreduced
    exact absurd hleaf List.not_mem_nil
  split at hreduced
  · cases hreduced
    exact absurd hleaf List.not_mem_nil
  obtain ⟨packages, hpackages, rfl⟩ := map_eq_ok_iff.1 hreduced
  split at hleaf
  · exact absurd hleaf List.not_mem_nil
  · next hne =>
    rw [List.mem_singleton.1 hleaf]
    exact ⟨packages, hpackages, by simpa using hne⟩

/-- A value is reduced to one choice among atoms that have candidates. -/
theorem candidates_of_reduce {spec : Spec} (h : r.reduce p var = .ok spec) :
    ∃ tree, Spec.parse (Variables.value p.metadata var) = .ok tree ∧
      spec = (r.leafReduced p tree).simplify.pickFirst.simplify ∧
      ∀ leaf ∈ (r.leafReduced p tree).leaves, r.HasCandidates leaf.1 := by
  obtain ⟨tree, hparse, hrest⟩ := bind_eq_ok_iff.1 h
  obtain ⟨reduced, hreduced, hspec⟩ := bind_eq_ok_iff.1 hrest
  obtain rfl : reduced = r.leafReduced p tree :=
    Spec.trySubstitute_eq_ok (fun _ _ _ => leafExpr_eq) hreduced
  refine ⟨tree, hparse, (Except.ok.inj hspec).symm, fun leaf hleaf => ?_⟩
  obtain ⟨replaced, hreplaced, hin⟩ := Spec.mem_leaves_substitute hleaf
  obtain ⟨e, he⟩ := Spec.exists_of_trySubstitute hreduced hreplaced
  exact hasCandidates_of_leafExpr he hin

/-- Each atom of a tree stands at a leaf. -/
theorem mem_leaves_of_mem_atoms {d : Spec} (h : a ∈ d.atoms) : ∃ leaf ∈ d.leaves, leaf.1 = a := by
  obtain ⟨leaf, hleaf, heq⟩ := List.mem_map.1 h
  exact ⟨leaf, (List.mem_filter.1 hleaf).1, heq⟩

/-- Without forced dependencies, every atom that a package requires has candidates, but for the
further ones of the overrides.  If the stability of those that are not barred can be told, one of
them is selected just when one is of a tier in order.  The alternatives that are left to take the
first of are not false, and none of them has a leaf without candidates. -/
theorem selectable_of_dependencies (r : Resolver) (p : Package) (var : String) (atoms : List Atom)
    (hunforced : r.settings.overrides.forcedDependencies.get? p.name = none)
    (h : r.dependencies p var = .ok atoms) :
    ∃ tree declared extra,
      Spec.parse (Variables.value p.metadata var) = .ok tree ∧
      r.settings.overrides.extraAtoms p.name var = .ok extra ∧
      atoms = declared ++ extra ∧
      (∀ atom ∈ declared, ∃ packages, r.candidates atom = .ok packages ∧ packages ≠ [] ∧
        ((∀ q ∈ packages, r.isBarred q = false → ∃ tier, q.stability = .ok tier) →
          ((∃ q, r.best atom = .ok q) ↔ ∃ q ∈ packages, r.IsSelectable q) ∧
            ((∀ q ∈ packages, ¬ r.IsSelectable q) →
              r.best atom = .error (.noCandidate atom.text)))) ∧
      r.reduce p var = .ok (r.leafReduced p tree).simplify.pickFirst.simplify ∧
      ∀ alternatives, .anyOf alternatives ∈ (r.leafReduced p tree).simplify.asExpr.nodes →
        ∀ e ∈ alternatives, e ≠ .false_ ∧ ∀ leaf ∈ e.leaves, r.HasCandidates leaf.1 := by
  obtain ⟨declared, extra, hdeclared, hextra, hatoms⟩ := dependencies_eq_ok hunforced h
  obtain ⟨spec, hreduce, -, hdecided⟩ := declared_eq_ok hdeclared
  obtain ⟨tree, hparse, rfl, hleaves⟩ := candidates_of_reduce hreduce
  have hsimplified : ∀ leaf ∈ (r.leafReduced p tree).simplify.leaves, r.HasCandidates leaf.1 :=
    fun leaf hleaf => hleaves leaf ((Spec.leaves_simplify_sublist _).subset hleaf)
  refine ⟨tree, declared, extra, hparse, hextra, hatoms, fun atom hatom => ?_, hreduce,
    fun alternatives hgroup e he => ⟨Spec.ne_false_of_simplify hgroup he, fun leaf hleaf => ?_⟩⟩
  · rw [Spec.decidedAtoms_eq_ok hdecided] at hatom
    obtain ⟨leaf, hleaf, rfl⟩ := mem_leaves_of_mem_atoms hatom
    have hpicked := (Spec.leaves_simplify_sublist _).subset hleaf
    obtain ⟨packages, hpackages, hne⟩ :=
      hsimplified leaf ((Spec.leaves_pickFirst_sublist _).subset hpicked)
    exact ⟨packages, hpackages, hne, best_of_valid hpackages⟩
  · have hin : leaf ∈ (Expr.anyOf alternatives).leaves := Expr.leaves_subset_of_child he hleaf
    exact hsimplified leaf (Expr.leaves_subset_of_mem_nodes hgroup hin)

/-! ## Alternatives that are taken in vain -/

/-- An overlay with three packages.  The ebuild of the first is broken, that of the second is
barred, and that of the third can be selected. -/
def offeringResolver : Resolver where
  tree := {
    root := .directory [("overlay", .directory [("app", .directory [
      ("b", .directory [("b-1.ebuild", .file (.text "KEYWORDS=-*\n"))]),
      ("c", .directory [("c-1.ebuild", .file (.text ""))]),
      ("d", .directory [("d-1.ebuild", .file (.text ""))])])])]
    workingDirectory := ⟨"/"⟩ }
  repositories := ⟨[⟨⟨"/overlay"⟩, "overlay", "7"⟩]⟩
  config := .fixed "" []
  settings := { overrides := { invalidEbuilds := ["c-1.ebuild"] } }

/-- A package that takes the broken one or the good one, and the barred one or the good one. -/
def choosyPackage : Package where
  path := ⟨"/overlay/app/a/a-0.ebuild"⟩
  name := "app/a"
  version := Version.zero
  info := {
    metadata := NameMap.ofList [("RDEPEND", "|| ( app/b app/d ) || ( app/c app/d )")]
    useFlags := .empty }

theorem forced_choosyPackage :
    offeringResolver.settings.overrides.forcedDependencies.get? choosyPackage.name = none := by
  decide +kernel

theorem extra_choosyPackage :
    offeringResolver.settings.overrides.extraAtoms choosyPackage.name "RDEPEND" = .ok [] :=
  toOption_eq_some_iff.1 (by decide +kernel)

theorem atoms_choosyPackage : offeringResolver.dependencies choosyPackage "RDEPEND" =
    .ok [.ofName "app/b", .ofName "app/c"] :=
  toOption_eq_some_iff.1 (by decide +kernel)

/-- The first atom that is kept has one candidate.  It is broken, so there is none to select. -/
theorem selectable_of_choosyPackage :
    offeringResolver.dependencies choosyPackage "RDEPEND" =
        .ok [.ofName "app/b", .ofName "app/c"] ∧
      offeringResolver.HasCandidates (.ofName "app/b") ∧
      offeringResolver.best (.ofName "app/b") =
        .error (.noCandidate (Atom.ofName "app/b").text) := by
  obtain ⟨_, declared, extra, -, hextra, hatoms, hkept, -⟩ :=
    selectable_of_dependencies offeringResolver choosyPackage "RDEPEND" _ forced_choosyPackage
      atoms_choosyPackage
  obtain rfl := Except.ok.inj (extra_choosyPackage.symm.trans hextra)
  rw [List.append_nil] at hatoms
  obtain ⟨packages, hpackages, hne, hselected⟩ := hkept (.ofName "app/b") (by simp [← hatoms])
  have hstability : (offeringResolver.candidates (.ofName "app/b")).toOption.map (List.map
      fun q => q.stability.toOption) = some [some .broken] := by
    decide +kernel
  rw [hpackages] at hstability
  obtain ⟨q, rfl, hq⟩ := List.map_eq_singleton_iff.1 (Option.some.inj hstability)
  have hbroken : ∀ s ∈ [q], s.stability = .ok .broken := by
    intro s hs
    rw [List.mem_singleton.1 hs, toOption_eq_some_iff.1 hq]
  have hnone : ∀ s ∈ [q], ¬ offeringResolver.IsSelectable s := by
    rintro s hs ⟨-, tier, htier, hs'⟩
    obtain rfl := Except.ok.inj ((hbroken s hs).symm.trans hs')
    exact absurd htier (by decide)
  exact ⟨atoms_choosyPackage, ⟨[q], hpackages, hne⟩,
    (hselected fun s hs _ => ⟨_, hbroken s hs⟩).2 hnone⟩

/-- Neither of the alternatives that are taken can be selected, while the one behind them can. -/
theorem dependencies_choosyPackage :
    offeringResolver.settings.overrides.forcedDependencies.get? choosyPackage.name = none ∧
      offeringResolver.settings.overrides.extraAtoms choosyPackage.name "RDEPEND" = .ok [] ∧
      offeringResolver.dependencies choosyPackage "RDEPEND" =
        .ok [.ofName "app/b", .ofName "app/c"] ∧
      (∀ taken ∈ ["app/b", "app/c"], ¬ ∃ q, offeringResolver.best (.ofName taken) = .ok q) ∧
      ∃ q, offeringResolver.best (.ofName "app/d") = .ok q := by
  have hbest : (offeringResolver.best (.ofName "app/d")).isOk = true := by
    decide +kernel
  have hnone : ∀ taken ∈ ["app/b", "app/c"],
      (offeringResolver.best (.ofName taken)).isOk = false := by
    decide +kernel
  refine ⟨forced_choosyPackage, extra_choosyPackage, atoms_choosyPackage, ?_,
    isOk_iff_exists.1 hbest⟩
  intro taken hin hok
  exact Bool.false_ne_true ((hnone taken hin).symm.trans (isOk_iff_exists.2 hok))

end Resolver
end EbuildGraph
