import EbuildGraph.Proofs.Sorting
import EbuildGraph.Proofs.Success
import EbuildGraph.Proofs.Version.Order
import EbuildGraph.Resolver.Selection

/-!
# The selected package

Selection sorts the candidates stably and takes the first of the best tier, so of two
packages that no atom can tell apart it always takes the same one.  Two atoms for the same
package name that select a package of the same version and slot therefore select the same
package, even when an ebuild is found in more than one repository.

Main results:

- Theorem {lit}`mem_candidates`: a candidate comes from an ebuild and satisfies the atom.
- Theorem {lit}`best_eq_ok`: the tier and the place among the candidates of what is selected.
- Theorem {lit}`best_unique`: what atoms cannot tell apart is selected alike.
-/

namespace EbuildGraph

/-! ## What atoms tell apart -/

/-- Atoms look at name, version and slot only. -/
theorem Atom.admits_congr {s t : ConcretePackage} (hname : s.name = t.name)
    (hversion : s.version = t.version) (hslot : s.slot = t.slot) (a : Atom) :
    a.admits s = a.admits t := by
  simp only [Atom.admits, hname, hversion, hslot]

namespace Resolver

variable {r : Resolver} {a b : Atom} {p q : Package}

/-- Masks see nothing of a package but its name, version and main slot. -/
theorem isMasked_congr {masks : List Atom} (hname : p.name = q.name)
    (hversion : p.version = q.version) (hslot : p.mainSlot = q.mainSlot) :
    isMasked masks p = isMasked masks q := by
  have hadmits : ∀ mask : Atom, mask.admits p.target = mask.admits q.target :=
    Atom.admits_congr hname hversion hslot
  simp only [isMasked, hadmits]

/-! ## Candidates -/

theorem isNewer_eq_true_iff : isNewer p q = true ↔ (q.version.compare p.version).isLE := by
  simp only [isNewer]
  cases q.version.compare p.version <;> decide

theorem isNewer_trans (p q s : Package) (hpq : isNewer p q = true) (hqs : isNewer q s = true) :
    isNewer p s = true := by
  rw [isNewer_eq_true_iff] at *
  exact Std.TransCmp.isLE_trans hqs hpq

theorem isNewer_total (p q : Package) : (isNewer p q || isNewer q p) = true := by
  have hswap : q.version.compare p.version = (p.version.compare q.version).swap :=
    Std.OrientedCmp.eq_swap
  rw [Bool.or_eq_true, isNewer_eq_true_iff, isNewer_eq_true_iff, hswap]
  cases p.version.compare q.version <;> simp

theorem isNewer_of_eq (h : p.version = q.version) : isNewer p q = true := by
  have hself : q.version.compare q.version = .eq := Std.ReflCmp.compare_self
  rw [isNewer_eq_true_iff, h, hself]
  rfl

/-- The packages that ebuilds of a name give. -/
def packagesOf (r : Resolver) (name : String) (files : List EbuildFile) : List Package :=
  files.filterMap (r.package? name)

/-- Whether a package is not masked and satisfies an atom. -/
def isEligible (r : Resolver) (a : Atom) (p : Package) : Bool :=
  !isMasked r.masks p && a.admits p.target

theorem candidates_eq_ok {packages : List Package} (h : r.candidates a = .ok packages) :
    ∃ files, r.repositories.ebuilds r.tree a.name = .ok files ∧
      packages = ((r.packagesOf a.name files).filter (r.isEligible a)).mergeSort isNewer := by
  obtain ⟨files, hfiles, h⟩ := bind_eq_ok_iff.1 h
  exact ⟨files, hfiles, (Except.ok.inj h).symm⟩

theorem package?_eq_some {name : String} {file : EbuildFile}
    (h : r.package? name file = some p) :
    p.path = file.path ∧ p.name = name ∧ p.version = file.version ∧
      Ebuild.read r.tree r.config file.path = .ok p.info := by
  unfold package? at h
  split at h
  · next info hinfo =>
    cases h
    exact ⟨rfl, rfl, rfl, hinfo⟩
  · cases h

theorem name_of_mem_packagesOf {name : String} {files : List EbuildFile}
    (h : p ∈ r.packagesOf name files) : p.name = name := by
  obtain ⟨file, _, hfile⟩ := List.mem_filterMap.1 h
  exact (package?_eq_some hfile).2.1

/-- A candidate comes from an ebuild of the package and satisfies the atom. -/
theorem mem_candidates {packages : List Package} (h : r.candidates a = .ok packages)
    (hp : p ∈ packages) :
    p.name = a.name ∧ a.admits p.target = true ∧
      ∃ files, r.repositories.ebuilds r.tree a.name = .ok files ∧
        ∃ file ∈ files, r.package? a.name file = some p := by
  obtain ⟨files, hfiles, rfl⟩ := candidates_eq_ok h
  obtain ⟨hfound, heligible⟩ := List.mem_filter.1 (List.mem_mergeSort.1 hp)
  obtain ⟨file, hfile, hpackage⟩ := List.mem_filterMap.1 hfound
  exact ⟨name_of_mem_packagesOf hfound, (Bool.and_eq_true_iff.1 heligible).2, files, hfiles, file,
    hfile, hpackage⟩

/-! ## Tiers -/

/-- Whether a package is of a tier. -/
def isOfTier (tier : Stability) (p : Package) : Bool :=
  p.stability.toOption == some tier

theorem firstOfTier?_eq_ok {tier : Stability} {packages : List Package} {found : Option Package}
    (h : firstOfTier? tier packages = .ok found) : packages.find? (isOfTier tier) = found := by
  induction packages with
  | nil => exact Except.ok.inj h
  | cons p rest ih =>
    rw [firstOfTier?] at h
    split at h
    · cases h
    next stability hstability =>
    split at h
    · next heq =>
      rw [List.find?_cons_of_pos (by simp [isOfTier, hstability, heq, Except.toOption])]
      exact Except.ok.inj h
    · next hne =>
      rw [List.find?_cons_of_neg (by simp [isOfTier, hstability, hne, Except.toOption])]
      exact ih h

/-- What is found is the first of a tier before which no tier has any. -/
theorem firstByTier?_eq_some {packages : List Package} {tiers : List Stability}
    (h : firstByTier? packages tiers = .ok (some p)) :
    ∃ earlier tier later, tiers = earlier ++ tier :: later ∧
      (∀ other ∈ earlier, packages.find? (isOfTier other) = none) ∧
      packages.find? (isOfTier tier) = some p := by
  induction tiers with
  | nil => cases h
  | cons first rest ih =>
    rw [firstByTier?] at h
    split at h
    · cases h
    · next found hfound =>
      cases h
      exact ⟨[], first, rest, rfl, by simp, firstOfTier?_eq_ok hfound⟩
    · next hnone =>
      obtain ⟨earlier, tier, later, rfl, hearlier, hp⟩ := ih h
      exact ⟨first :: earlier, tier, later, rfl,
        List.forall_mem_cons.2 ⟨firstOfTier?_eq_ok hnone, hearlier⟩, hp⟩

/-- The package selected for an atom is the first candidate, those that are barred apart,
of a tier before which no tier has any. -/
theorem best_eq_ok (h : r.best a = .ok p) :
    ∃ packages earlier tier later, r.candidates a = .ok packages ∧
      r.settings.stabilityOrder = earlier ++ tier :: later ∧
      (∀ other ∈ earlier,
        (packages.filter fun p => !r.isBarred p).find? (isOfTier other) = none) ∧
      (packages.filter fun p => !r.isBarred p).find? (isOfTier tier) = some p := by
  obtain ⟨packages, hpackages, h⟩ := bind_eq_ok_iff.1 h
  obtain ⟨found, hfound, h⟩ := bind_eq_ok_iff.1 h
  cases found with
  | none => cases h
  | some first =>
    cases h
    obtain ⟨earlier, tier, later, horder, hearlier, htier⟩ := firstByTier?_eq_some hfound
    exact ⟨packages, earlier, tier, later, hpackages, horder, hearlier, htier⟩

/-- A selected package is a candidate. -/
theorem exists_candidates_of_best (h : r.best a = .ok p) :
    ∃ packages, r.candidates a = .ok packages ∧ p ∈ packages := by
  obtain ⟨packages, _, tier, _, hpackages, _, _, htier⟩ := best_eq_ok h
  exact ⟨packages, hpackages, List.mem_of_mem_filter (List.mem_of_find?_eq_some htier)⟩

/-! ## Uniqueness -/

/-- Whether atoms for the name of a package cannot tell another one from it. -/
def isLike (p q : Package) : Bool :=
  q.version == p.version && q.mainSlot == p.mainSlot

theorem isLike_iff : isLike p q = true ↔ q.version = p.version ∧ q.mainSlot = p.mainSlot := by
  simp [isLike]

theorem isEligible_of_isLike (hname : p.name = q.name) (hlike : isLike p q = true)
    (h : r.isEligible a p = true) : r.isEligible a q = true := by
  obtain ⟨hversion, hslot⟩ := isLike_iff.1 hlike
  have hmasked : isMasked r.masks p = isMasked r.masks q :=
    isMasked_congr hname hversion.symm hslot.symm
  have hadmits : a.admits p.target = a.admits q.target :=
    Atom.admits_congr hname hversion.symm hslot.symm a
  rw [isEligible, hmasked, hadmits] at h
  exact h

/-- Among the candidates, those like an eligible package are in the order of the ebuilds. -/
theorem filter_isLike_candidates {files : List EbuildFile} (hp : p.name = a.name)
    (heligible : r.isEligible a p = true) :
    (((r.packagesOf a.name files).filter (r.isEligible a)).mergeSort isNewer).filter (isLike p) =
      (r.packagesOf a.name files).filter (isLike p) := by
  have hlike : ∀ s t, isLike p s = true → isLike p t = true → isNewer s t = true := by
    intro s t hs ht
    exact isNewer_of_eq ((isLike_iff.1 hs).1.trans (isLike_iff.1 ht).1.symm)
  rw [filter_mergeSort isNewer_trans isNewer_total hlike, List.filter_filter]
  refine List.filter_congr fun q hq => ?_
  cases hlikeq : isLike p q with
  | false => rfl
  | true =>
    have hname : p.name = q.name := hp.trans (name_of_mem_packagesOf hq).symm
    rw [isEligible_of_isLike hname hlikeq heligible]
    rfl

/-- What is first in a list is first among those members that it is one of. -/
theorem find?_filter_of_find? {packages : List Package} {test like : Package → Bool}
    (h : packages.find? test = some p) (hlike : like p = true) :
    (packages.filter like).find? test = some p := by
  obtain ⟨htest, before, after, rfl, hbefore⟩ := List.find?_eq_some_iff_append.1 h
  rw [List.filter_append, List.filter_cons_of_pos hlike]
  refine List.find?_eq_some_iff_append.2 ⟨htest, _, _, rfl, fun q hq => ?_⟩
  exact hbefore q (List.mem_of_mem_filter hq)

theorem find?_and (packages : List Package) (test other : Package → Bool) :
    (packages.filter test).find? other = packages.find? fun q => test q && other q := by
  rw [List.find?_filter]
  congr 1
  funext q
  simp

/-- The selected package is the first of its tier among the ebuilds of packages like it. -/
theorem find?_isLike_of_best (h : r.best a = .ok p) :
    ∃ files earlier tier later, r.repositories.ebuilds r.tree a.name = .ok files ∧
      r.settings.stabilityOrder = earlier ++ tier :: later ∧
      ((r.packagesOf a.name files).filter (isLike p)).find?
        (fun q => !r.isBarred q && isOfTier tier q) = some p ∧
      ∀ other ∈ earlier, ((r.packagesOf a.name files).filter (isLike p)).find?
        (fun q => !r.isBarred q && isOfTier other q) = none := by
  obtain ⟨packages, earlier, tier, later, hpackages, horder, hearlier, htier⟩ := best_eq_ok h
  obtain ⟨files, hfiles, rfl⟩ := candidates_eq_ok hpackages
  have hmem := List.mem_of_mem_filter (List.mem_of_find?_eq_some htier)
  obtain ⟨hfound, heligible⟩ := List.mem_filter.1 (List.mem_mergeSort.1 hmem)
  have hself : isLike p p = true := isLike_iff.2 ⟨rfl, rfl⟩
  refine ⟨files, earlier, tier, later, hfiles, horder, ?_, ?_⟩
  · rw [← filter_isLike_candidates (name_of_mem_packagesOf hfound) heligible]
    rw [find?_and] at htier
    exact find?_filter_of_find? htier hself
  · intro other hother
    rw [← filter_isLike_candidates (name_of_mem_packagesOf hfound) heligible]
    have hnone := hearlier other hother
    rw [find?_and] at hnone
    exact List.find?_eq_none.2 fun q hq => List.find?_eq_none.1 hnone q (List.mem_of_mem_filter hq)

/-- Where lists are cut before members that the other front lacks, these are the same. -/
theorem head_eq_of_append_eq {α : Type} {xs ys zs ws : List α} {x y : α}
    (h : xs ++ x :: ys = zs ++ y :: ws) (hx : x ∉ zs) (hy : y ∉ xs) : x = y := by
  rcases List.append_eq_append_iff.1 h with ⟨middle, hfront, hback⟩ | ⟨middle, hfront, hback⟩
  · rcases middle with _ | ⟨first, middle⟩
    · exact (List.cons.inj hback).1
    · obtain rfl := (List.cons.inj hback).1
      exact absurd (by simp [hfront]) hx
  · rcases middle with _ | ⟨first, middle⟩
    · exact (List.cons.inj hback).1.symm
    · obtain rfl := (List.cons.inj hback).1
      exact absurd (by simp [hfront]) hy

/-- Two atoms for one name that select packages of one version and slot select one
package. -/
theorem best_unique (hname : a.name = b.name) (hp : r.best a = .ok p) (hq : r.best b = .ok q)
    (hversion : p.version = q.version) (hslot : p.mainSlot = q.mainSlot) : p = q := by
  obtain ⟨files, earlier, tier, later, hfiles, horder, hfirst, hnone⟩ := find?_isLike_of_best hp
  obtain ⟨files', earlier', tier', later', hfiles', horder', hfirst', hnone'⟩ :=
    find?_isLike_of_best hq
  obtain rfl : files = files' := by
    rw [hname, hfiles'] at hfiles
    exact (Except.ok.inj hfiles).symm
  have hlike : isLike p = isLike q := by
    funext s
    rw [isLike, isLike, hversion, hslot]
  rw [hname, hlike] at hfirst hnone
  have hout : tier ∉ earlier' := by
    intro hmem
    rw [hnone' tier hmem] at hfirst
    cases hfirst
  have hout' : tier' ∉ earlier := by
    intro hmem
    rw [hnone tier' hmem] at hfirst'
    cases hfirst'
  obtain rfl : tier = tier' := head_eq_of_append_eq (horder.symm.trans horder') hout hout'
  exact Option.some.inj (hfirst.symm.trans hfirst')

end Resolver
end EbuildGraph
