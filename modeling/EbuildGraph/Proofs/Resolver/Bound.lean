import EbuildGraph.Proofs.Resolver.Label

/-!
# Labels that a search can meet

Every label belongs to some ebuild, of a package that is asked for or that has a directory
in a repository.  There are finitely many of these, and their number bounds how deep a
search nests and how many post-dependencies wait.

Main results:

- Theorem {lit}`length_possibleLabels_le`: the bound of the search bounds the labels.
- Theorem {lit}`label_mem_possibleLabels`: what is selected has one of these labels.
-/

namespace EbuildGraph
namespace Resolver

variable {r : Resolver} {a : Atom} {σ : Selection}

/-- The label of the package that an ebuild of a name gives, if it has one. -/
def ebuildLabel? (r : Resolver) (name : String) (file : EbuildFile) : Option String :=
  (r.package? name file).bind fun p => (r.locate p).toOption.map Selection.label

/-- The labels of all packages of a name. -/
def labelsNamed (r : Resolver) (name : String) : List String :=
  match r.repositories.ebuilds r.tree name with
  | .ok files => files.filterMap (r.ebuildLabel? name)
  | .error _ => []

/-- The names of the packages that a search can come to. -/
def searchedNames (r : Resolver) (atoms : List Atom) : List String :=
  atoms.map Atom.name ++
    r.repositories.repositories.flatMap fun repository => repository.packageNames r.tree

/-- The labels of all packages that a search can come to. -/
def possibleLabels (r : Resolver) (atoms : List Atom) : List String :=
  (r.searchedNames atoms).flatMap r.labelsNamed

/-- A name has at most as many labels as there are ebuilds of it. -/
theorem length_labelsNamed_le (r : Resolver) (name : String) :
    (r.labelsNamed name).length ≤ r.ebuildCount name := by
  unfold labelsNamed ebuildCount
  cases r.repositories.ebuilds r.tree name with
  | ok files => exact List.length_filterMap_le _ _
  | error err => exact Nat.le_refl 0

/-- The bound of the search bounds the labels. -/
theorem length_possibleLabels_le (r : Resolver) (atoms : List Atom) :
    (r.possibleLabels atoms).length ≤ r.labelBound atoms := by
  have hsum : ∀ names : List String, (names.flatMap r.labelsNamed).length ≤
      names.foldr (fun name bound => r.ebuildCount name + bound) 0 := by
    intro names
    induction names with
    | nil => exact Nat.le_refl 0
    | cons name rest ih =>
      rw [List.flatMap_cons, List.length_append, List.foldr_cons]
      exact Nat.add_le_add (r.length_labelsNamed_le name) ih
  exact hsum (r.searchedNames atoms)

/-- Each selection for a name takes one of the labels of that name. -/
theorem label_mem_labelsNamed (h : r.select a = .ok σ) : σ.label ∈ r.labelsNamed a.name := by
  obtain ⟨p, hbest, hlocate⟩ := bind_eq_ok_iff.1 h
  obtain ⟨packages, hpackages, hmem⟩ := exists_candidates_of_best hbest
  obtain ⟨_, _, files, hfiles, file, hfile, hpackage⟩ := mem_candidates hpackages hmem
  simp only [labelsNamed, hfiles]
  refine List.mem_filterMap.2 ⟨file, hfile, ?_⟩
  simp [ebuildLabel?, hpackage, hlocate, Except.toOption]

/-- What is selected has a label that a search can come to. -/
theorem label_mem_possibleLabels {atoms : List Atom} (ha : a ∈ atoms ∨ a.IsQualified)
    (h : r.select a = .ok σ) : σ.label ∈ r.possibleLabels atoms := by
  refine List.mem_flatMap.2 ⟨a.name, ?_, label_mem_labelsNamed h⟩
  rcases ha with hstart | hqualified
  · exact List.mem_append_left _ (List.mem_map_of_mem hstart)
  · obtain ⟨category, package, hname⟩ := checkQualified_eq_ok hqualified
    obtain ⟨repository, hrepository, entries, hentries, _⟩ := ebuild_of_select h
    exact List.mem_append_right _ (List.mem_flatMap.2 ⟨repository, hrepository,
      Repository.mem_packageNames hname hentries⟩)

end Resolver
end EbuildGraph
