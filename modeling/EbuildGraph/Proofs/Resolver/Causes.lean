import EbuildGraph.Proofs.Dependency.Nodes
import EbuildGraph.Proofs.Failure
import EbuildGraph.Proofs.Resolver.Course
import EbuildGraph.Proofs.SourceUri.Downloads

/-!
# Causes of failures

Selecting a package for an atom, reading what it requires and making its record fail in many
ways, but never with a cycle or an inconsistent selection: a resolution that fails for one of
these has found it by itself, between the labels that it began and finished.

Main results:

- Theorem {lit}`failsOutside_select`: selecting a package finds neither.
- Theorem {lit}`failsOutside_requirements`: reading what a package requires finds neither.
- Theorem {lit}`failsOutside_recordOf`: making a record finds neither.
-/

namespace EbuildGraph

/-! ## Metadata -/

theorem Eapi.failsOutside_ofVariable (declared : Option String) :
    FailsOutside (Eapi.ofVariable declared) := by
  have hparse (s : String) : FailsOutside (Eapi.parse s) := by
    unfold Eapi.parse
    split
    · split
      · exact .ok _
      · exact .error rfl
    · exact .error rfl
  unfold Eapi.ofVariable
  split
  · exact .ok _
  · split
    · exact .ok _
    · exact hparse _

theorem Stability.failsOutside_ofKeywords (keywords arch : String) :
    FailsOutside (Stability.ofKeywords keywords arch) := by
  have hparse (s : String) : FailsOutside (Keyword.parse s) := by
    unfold Keyword.parse
    split
    split
    · exact .error rfl
    · exact .ok _
  exact (FailsOutside.mapM fun s _ => hparse s).map _

theorem RepositorySet.failsOutside_ebuilds (tree : FileTree) (s : RepositorySet) (name : String) :
    FailsOutside (s.ebuilds tree name) := by
  have hrepository (repository : Repository) : FailsOutside (repository.ebuilds tree name) := by
    unfold Repository.ebuilds
    dsimp only
    split
    · exact .ok _
    · exact .error rfl
    · exact .ok _
  exact (FailsOutside.mapM fun repository _ => hrepository repository).map _

/-! ## Dependency expressions -/

namespace Dependency

theorem Spec.failsOutside_parse (s : String) : FailsOutside (Spec.parse s) := by
  unfold Spec.parse
  split
  · exact .ok _
  · exact .error rfl

/-- Replacing leaves fails as the replacements do. -/
theorem Expr.failsOutside_trySubstituteAll {f : Atom → Blocking → Except Error Expr}
    {es : List Expr} (h : ∀ e ∈ es, FailsOutside (e.trySubstitute f)) : FailsOutside (trySubstituteAll f es) := by
  induction es with
  | nil => exact .ok _
  | cons e rest ih =>
    obtain ⟨hfirst, hrest⟩ := List.forall_mem_cons.1 h
    rw [trySubstituteAll]
    split
    · next herr => exact .error (hfirst _ herr)
    · exact (ih hrest).map _

/-- A substitution fails as the replacement of some leaf does. -/
theorem Expr.failsOutside_trySubstitute {f : Atom → Blocking → Except Error Expr}
    (hf : ∀ a b, FailsOutside (f a b)) (e : Expr) : FailsOutside (e.trySubstitute f) := by
  induction e with
  | allOf es ih | anyOf es ih | exactlyOneOf es ih | atMostOneOf es ih
  | useConditional flag expect es ih =>
    rw [trySubstitute]
    exact (failsOutside_trySubstituteAll ih).map _
  | package a b => exact hf a b

theorem Spec.failsOutside_trySubstitute {f : Atom → Blocking → Except Error Expr}
    (hf : ∀ a b, FailsOutside (f a b)) (d : Spec) : FailsOutside (d.trySubstitute f) :=
  (Expr.failsOutside_trySubstituteAll fun e _ => e.failsOutside_trySubstitute hf).map _

theorem Expr.failsOutside_decidedAtomsAll {es : List Expr}
    (h : ∀ e ∈ es, FailsOutside e.decidedAtoms) : FailsOutside (decidedAtomsAll es) := by
  induction es with
  | nil => exact .ok _
  | cons e rest ih =>
    obtain ⟨hfirst, hrest⟩ := List.forall_mem_cons.1 h
    rw [decidedAtomsAll]
    split
    · next herr => exact .error (hfirst _ herr)
    · exact (ih hrest).map _

/-- An undecided tree is refused with a cause of its own, which is no failure of the search. -/
theorem Expr.failsOutside_decidedAtoms (e : Expr) : FailsOutside e.decidedAtoms := by
  induction e with
  | allOf es ih | useConditional flag expect es ih =>
    rw [decidedAtoms]
    exact failsOutside_decidedAtomsAll ih
  | anyOf es ih | exactlyOneOf es ih =>
    rw [decidedAtoms]
    split
    · exact .error rfl
    · exact failsOutside_decidedAtomsAll ih
  | atMostOneOf es ih =>
    rw [decidedAtoms]
    split
    · exact .ok _
    · exact .error rfl
  | package a b => exact .ok _

theorem Spec.failsOutside_decidedAtoms (d : Spec) : FailsOutside d.decidedAtoms :=
  Expr.failsOutside_decidedAtomsAll fun e _ => e.failsOutside_decidedAtoms

end Dependency

/-! ## Overrides -/

namespace Overrides

theorem failsOutside_readAtoms (texts : List String) : FailsOutside (readAtoms texts) :=
  .mapM fun _ _ => .mapError fun _ => rfl

theorem failsOutside_forcedAtoms (o : Overrides) (package : String) :
    FailsOutside (o.forcedAtoms package) := by
  unfold forcedAtoms
  split
  · exact .ok _
  · exact (failsOutside_readAtoms _).map _

theorem failsOutside_extraAtoms (o : Overrides) (package var : String) :
    FailsOutside (o.extraAtoms package var) := by
  unfold extraAtoms
  split
  · exact .ok _
  · exact failsOutside_readAtoms _

end Overrides

/-! ## Sources of a package -/

theorem Package.failsOutside_localSources (p : Package) : FailsOutside p.localSources := by
  have hcount (array : String) (values projects : List String) :
      FailsOutside (p.checkCount array values projects) := by
    unfold checkCount
    split
    · exact .error rfl
    · exact .ok _
  have hcheckouts : FailsOutside p.checkouts :=
    (hcount _ _ _).bind fun _ => (hcount _ _ _).bind fun _ => .ok _
  exact hcheckouts.map _

theorem SourceUri.failsOutside_parse (s : String) : FailsOutside (SourceUri.parse s) := by
  unfold SourceUri.parse
  split
  · exact .ok _
  · exact .error rfl

theorem SourceUri.failsOutside_downloads (entries : List Entry) (flags : NameSet) :
    FailsOutside (downloads entries flags) := by
  have hname (url : String) (rename : Option String) : FailsOutside (fileNameOf url rename) := by
    unfold fileNameOf
    split
    · exact .ok _
    · unfold fileNameOfUrl
      dsimp only
      split
      · exact .ok _
      · exact .error rfl
  rw [downloads_eq]
  exact (FailsOutside.mapM fun u _ => (hname u.url u.rename).map _).map _

theorem Manifest.failsOutside_load (tree : FileTree) (dir : Path) :
    FailsOutside (Manifest.load tree dir) := by
  unfold Manifest.load
  dsimp only
  split
  · exact .error rfl
  · unfold Manifest.parse
    split
    · exact .error rfl
    · exact .ok _

theorem SourceFile.failsOutside_lookUpAll (manifest : Manifest)
    (files : List (String × List String)) : FailsOutside (lookUpAll manifest files) := by
  induction files with
  | nil => exact .ok _
  | cons file rest ih =>
    rw [lookUpAll]
    split
    · exact .error rfl
    · exact ih.map _

theorem Package.failsOutside_sourceFiles (tree : FileTree) (p : Package) :
    FailsOutside (p.sourceFiles tree) := by
  refine (SourceUri.failsOutside_parse _).bind fun entries => ?_
  refine (SourceUri.failsOutside_downloads _ _).bind fun files => ?_
  split
  · exact .ok _
  · refine (Manifest.failsOutside_load _ _).bind fun manifest => ?_
    exact (SourceFile.failsOutside_lookUpAll _ _).bind fun found => .ok _

/-! ## Selection and requirements -/

namespace Resolver

/-- What stops the listing of candidates comes from the files and never from the search. -/
theorem failsOutside_candidates (r : Resolver) (a : Atom) : FailsOutside (r.candidates a) :=
  (RepositorySet.failsOutside_ebuilds _ _ _).bind fun _ => .ok _

theorem failsOutside_firstByTier? (packages : List Package) (tiers : List Stability) :
    FailsOutside (firstByTier? packages tiers) := by
  have htier (tier : Stability) (packages : List Package) :
      FailsOutside (firstOfTier? tier packages) := by
    induction packages with
    | nil => exact .ok _
    | cons p rest ih =>
      rw [firstOfTier?]
      split
      · next herr => exact .error (Stability.failsOutside_ofKeywords _ _ _ herr)
      · split
        · exact .ok _
        · exact ih
  induction tiers with
  | nil => exact .ok _
  | cons tier rest ih =>
    rw [firstByTier?]
    split
    · next herr => exact .error (htier _ _ _ herr)
    · exact .ok _
    · exact ih

/-- Selecting a package finds neither a cycle nor an inconsistent selection. -/
theorem failsOutside_select (r : Resolver) (a : Atom) : FailsOutside (r.select a) := by
  have hbest : FailsOutside (r.best a) := by
    refine (r.failsOutside_candidates a).bind fun packages => ?_
    refine (failsOutside_firstByTier? _ _).bind fun found => ?_
    split
    · exact .ok _
    · exact .error rfl
  have hlocate (p : Package) : FailsOutside (r.locate p) := by
    unfold locate
    split
    · exact .error rfl
    · exact .ok _
  exact hbest.bind hlocate

/-- What stops the reading of dependencies comes from the package and never from the search. -/
theorem failsOutside_dependencies (r : Resolver) (p : Package) (var : String) :
    FailsOutside (r.dependencies p var) := by
  have hleaf (a : Atom) (blocking : Dependency.Blocking) :
      FailsOutside (r.reduceLeaf a blocking) := by
    unfold reduceLeaf
    split
    · exact .ok _
    split
    · exact .ok _
    split
    · exact .ok _
    · exact (r.failsOutside_candidates a).map _
  have hreduce : FailsOutside (r.reduce p var) := by
    refine (Dependency.Spec.failsOutside_parse _).bind fun parsed => ?_
    exact (Dependency.Spec.failsOutside_trySubstitute hleaf _).bind fun reduced => .ok _
  have hdeclared : FailsOutside (r.declared p var) := by
    refine hreduce.bind fun spec => ?_
    dsimp only
    split
    · exact FailsOutside.bind (.error rfl) fun _ => spec.failsOutside_decidedAtoms
    · exact spec.failsOutside_decidedAtoms
  refine (Overrides.failsOutside_forcedAtoms _ _).bind fun forced => ?_
  split
  · exact .ok _
  · refine hdeclared.bind fun atoms => ?_
    exact (Overrides.failsOutside_extraAtoms _ _ _).bind fun extra => .ok _

/-- Reading what a package requires finds neither a cycle nor an inconsistent selection. -/
theorem failsOutside_requirements (r : Resolver) (p : Package) :
    FailsOutside (r.requirements p) := by
  refine (r.failsOutside_dependencies p _).bind fun runtime => ?_
  refine (Eapi.failsOutside_ofVariable _).bind fun eapi => ?_
  refine FailsOutside.bind (.mapM fun var _ => r.failsOutside_dependencies p var) fun build => ?_
  exact (r.failsOutside_dependencies p _).bind fun post => .ok _

/-- Making a record finds neither a cycle nor an inconsistent selection. -/
theorem failsOutside_recordOf (r : Resolver) (σ : Selection) (required : Requirements) :
    FailsOutside (r.recordOf σ required) := by
  refine σ.package.failsOutside_localSources.bind fun localSources => ?_
  exact (σ.package.failsOutside_sourceFiles _).bind fun sourceFiles => .ok _

end Resolver
end EbuildGraph
