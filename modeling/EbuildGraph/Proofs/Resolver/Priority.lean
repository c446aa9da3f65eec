import EbuildGraph.Proofs.Resolver.Preference

/-!
# Equal versions in several repositories

The ebuilds are listed one repository after the other, in increasing priority.  The candidates are
sorted stably and the first one of a tier is selected, so among choices of one tier with equal
versions the repository that stands first in the list decides, and in it the path.

Main definitions:

- {lit}`Resolver.IsFrom`: whether a package is that of an ebuild in a repository, which is told by
  its place in the list.
- {lit}`Resolver.packagesAt`: the packages that are so.
- {lit}`Resolver.isRival`: whether a package could be selected in place of another one.

Main results:

- Theorem {lit}`find?_isRival_of_best`: what is selected is the first of its rivals in the order
  of the repositories.
- Theorem {lit}`exists_blocks`: the packages of one repository follow those of another.
- Theorem {lit}`best_isOfFirstRepository`: what is selected is from the first repository in the
  list that has a rival of it.
-/

namespace EbuildGraph
namespace Resolver

variable {r : Resolver} {a : Atom} {p q : Package} {tier : Stability}

/-- Whether a package is that of an ebuild in the repository at a place of the list. -/
def IsFrom (r : Resolver) (name : String) (place : Nat) (p : Package) : Prop :=
  ∃ repository, r.repositories.repositories[place]? = some repository ∧
    ∃ files, repository.ebuilds r.tree name = .ok files ∧
      ∃ file ∈ files, r.package? name file = some p

/-- The packages of the ebuilds in the repository at a place of the list, as far as they can be
listed. -/
def packagesAt (r : Resolver) (name : String) (place : Nat) : List Package :=
  ((r.repositories.repositories[place]?.bind fun repository =>
    (repository.ebuilds r.tree name).toOption).map (r.packagesOf name)).getD []

/-- The packages at a place are those read from the repository of that place. -/
theorem mem_packagesAt {name : String} {place : Nat} :
    p ∈ r.packagesAt name place ↔ r.IsFrom name place p := by
  rw [packagesAt, IsFrom]
  cases r.repositories.repositories[place]? with
  | none => simp
  | some repository =>
    cases h : repository.ebuilds r.tree name with
    | error err => simp [h, Except.toOption]
    | ok files => simp [h, Except.toOption, packagesOf, List.mem_filterMap]

instance {name : String} {place : Nat} : Decidable (r.IsFrom name place p) :=
  decidable_of_iff _ mem_packagesAt

/-! ## Rivals -/

/-- Whether two packages are of equal versions. -/
def isAsNew (p q : Package) : Bool :=
  q.version.compare p.version == .eq

/-- Two packages are equally new if their versions compare equal. -/
theorem isAsNew_iff : isAsNew p q = true ↔ q.version.compare p.version = .eq :=
  beq_iff_eq

/-- Whether a package could be selected for an atom in place of another one of a tier. -/
def isRival (r : Resolver) (a : Atom) (tier : Stability) (p q : Package) : Bool :=
  r.isEligible a q && (isAsNew p q && (!r.isBarred q && isOfTier tier q))

/-- A choice of the same tier and an equal version is a rival. -/
theorem isRival_of_isChoice (h : r.IsChoice a q) (htier : q.stability = .ok tier)
    (hversion : q.version.compare p.version = .eq) : r.isRival a tier p q = true := by
  have heligible : r.isEligible a q = true := isEligible_iff.2 ⟨h.unmasked, h.admitted⟩
  have hbarred : r.isBarred q = false := isBarred_eq_false_iff.2 h.permitted
  simp [isRival, heligible, hbarred, isAsNew_iff.2 hversion, isOfTier_iff.2 htier]

/-- The selected package is the first of its rivals among the packages of the ebuilds, since
sorting keeps the order of equal versions. -/
theorem find?_isRival_of_best (h : r.best a = .ok p) :
    ∃ files tier, r.repositories.ebuilds r.tree a.name = .ok files ∧ p.stability = .ok tier ∧
      (r.packagesOf a.name files).find? (r.isRival a tier p) = some p := by
  obtain ⟨packages, _, tier, _, hpackages, _, _, hfirst⟩ := best_eq_ok h
  obtain ⟨files, hfiles, rfl⟩ := candidates_eq_ok hpackages
  have htier := isOfTier_iff.1 (List.find?_some hfirst)
  have hself : isAsNew p p = true := isAsNew_iff.2 Std.ReflCmp.compare_self
  have hsame : ∀ s t, isAsNew p s = true → isAsNew p t = true → isNewer s t = true := by
    intro s t hs ht
    rw [isNewer_eq_true_iff, Std.TransCmp.congr_left (isAsNew_iff.1 ht),
      Std.OrientedCmp.eq_symm (isAsNew_iff.1 hs)]
    rfl
  rw [find?_and] at hfirst
  have hrivals := find?_filter_of_find? hfirst hself
  rw [filter_mergeSort isNewer_trans isNewer_total hsame, find?_and, find?_and] at hrivals
  exact ⟨files, tier, hfiles, htier, hrivals⟩

/-! ## Places of repositories -/

/-- Lists that are related member by member are so at every place. -/
theorem rel_getElem? {α β : Type} {R : α → β → Prop} {xs : List α} {ys : List β}
    (h : List.Forall₂ R xs ys) (place : Nat) : Option.Rel R xs[place]? ys[place]? := by
  induction h generalizing place with
  | nil => exact .none
  | cons hfirst _ ih =>
    cases place with
    | zero => exact .some hfirst
    | succ place => exact ih place

/-- Whether a package is listed before another one of its repository: it is newer, or equally new
and its path comes first. -/
def IsListedBefore (p q : Package) : Prop :=
  q.version.compare p.version = .lt ∨
    q.version.compare p.version = .eq ∧ p.path.text ≤ q.path.text

/-- The packages of one repository are in the order of its ebuilds. -/
theorem pairwise_packagesOf {repository : Repository} {name : String} {files : List EbuildFile}
    (h : repository.ebuilds r.tree name = .ok files) :
    (r.packagesOf name files).Pairwise IsListedBefore := by
  refine (Repository.pairwise_ebuilds h).filterMap _ fun f g hfg p hp q hq => ?_
  obtain ⟨hpath, _, hversion, _⟩ := package?_eq_some hp
  obtain ⟨hpath', _, hversion', _⟩ := package?_eq_some hq
  rw [IsListedBefore, hpath, hversion, hpath', hversion']
  exact Repository.comesBefore_iff.1 hfg

/-- The packages of all repositories are those of each in turn, at its place in the list. -/
theorem exists_blocks {name : String} {files : List EbuildFile}
    (h : r.repositories.ebuilds r.tree name = .ok files) :
    ∃ blocks : List (List Package), r.packagesOf name files = blocks.flatten ∧
      (∀ block ∈ blocks, block.Pairwise IsListedBefore) ∧
      ∀ place p, r.IsFrom name place p ↔ ∃ block, blocks[place]? = some block ∧ p ∈ block := by
  obtain ⟨found, hfound, rfl⟩ := map_eq_ok_iff.1 h
  refine ⟨found.map (r.packagesOf name), List.filterMap_flatten, ?_, fun place p => ?_⟩
  · intro block hblock
    obtain ⟨files, hfiles, rfl⟩ := List.mem_map.1 hblock
    obtain ⟨repository, _, hebuilds⟩ := exists_of_mem_mapM hfound hfiles
    exact pairwise_packagesOf hebuilds
  · have hplace := rel_getElem? (mapM_eq_ok_iff.1 hfound) place
    rw [IsFrom, List.getElem?_map]
    revert hplace
    generalize r.repositories.repositories[place]? = repository
    generalize found[place]? = files
    rintro (hebuilds | _)
    · simp [hebuilds, packagesOf, List.mem_filterMap]
    · simp

/-! ## The first repository -/

/-- What is selected is from the first repository in the list that has a choice of its tier with
an equal version, and of several such ebuilds there it is the first one by its path. -/
theorem best_isOfFirstRepository (h : r.best a = .ok p) :
    ∃ place, r.IsFrom a.name place p ∧
      ∀ q, r.IsChoice a q → q.stability = p.stability → q.version.compare p.version = .eq →
        ∀ other, r.IsFrom a.name other q →
          place ≤ other ∧ (other = place → p.path.text ≤ q.path.text) := by
  obtain ⟨files, tier, hfiles, htier, hfirst⟩ := find?_isRival_of_best h
  obtain ⟨blocks, hblocks, hsorted, hfrom⟩ := exists_blocks hfiles
  rw [hblocks, List.find?_flatten_eq_some_iff] at hfirst
  obtain ⟨hself, earlier, before, after, later, rfl, hearlier, hbefore⟩ := hfirst
  have hplace : (earlier ++ (before ++ p :: after) :: later)[earlier.length]? =
      some (before ++ p :: after) := by simp
  refine ⟨earlier.length, (hfrom _ p).2 ⟨_, hplace, by simp⟩, ?_⟩
  intro q hchoice hstability hversion other hother
  have hrival : r.isRival a tier p q = true :=
    isRival_of_isChoice hchoice (hstability.trans htier) hversion
  obtain ⟨block, hblock, hmem⟩ := (hfrom other q).1 hother
  constructor
  · by_contra hlt
    rw [List.getElem?_append_left (by omega)] at hblock
    have hnot := hearlier block (List.mem_of_getElem? hblock) q hmem
    simp [hrival] at hnot
  · rintro rfl
    obtain rfl : before ++ p :: after = block := Option.some.inj (hplace.symm.trans hblock)
    have hfirst : (before ++ p :: after).find? (r.isRival a tier p) = some p :=
      List.find?_eq_some_iff_append.2 ⟨hself, before, after, rfl, hbefore⟩
    have hself : IsListedBefore p p := Or.inr ⟨Std.ReflCmp.compare_self, String.le_refl _⟩
    rcases rel_of_find? (hsorted _ (List.mem_of_getElem? hplace)) hself hfirst hmem hrival
      with hlt | ⟨_, hpath⟩
    · rw [hversion] at hlt
      cases hlt
    · exact hpath

/-- Two overlays with an equal version each. -/
def rivalOverlays : Resolver where
  tree := {
    root := .directory [sampleOverlay "main" "1.0" "KEYWORDS=*\n",
      sampleOverlay "board" "1.0" "KEYWORDS=*\n"]
    workingDirectory := ⟨"/"⟩ }
  repositories := ⟨["main", "board"].map fun name => ⟨⟨"/" ++ name⟩, name, "7"⟩⟩
  config := .fixed "" []
  settings := { overrides := .none }

theorem choices_rivalOverlays : (rivalOverlays.choices (.ofName "dev-libs/a")).toOption =
    some (rivalOverlays.packagesAt "dev-libs/a" 0 ++ rivalOverlays.packagesAt "dev-libs/a" 1) := by
  rw [choices_eq_map]
  decide +kernel

theorem best_rivalOverlays : (rivalOverlays.best (.ofName "dev-libs/a")).toOption =
    (rivalOverlays.packagesAt "dev-libs/a" 0).head? := by
  rw [best_eq_bind, choices_eq_map]
  decide +kernel

theorem packagesAt_rivalOverlays : ∀ place ∈ [0, 1],
    (rivalOverlays.packagesAt "dev-libs/a" place).length = 1 ∧
      ∀ p ∈ rivalOverlays.packagesAt "dev-libs/a" place, p.stability.toOption = some .stable ∧
        (Version.parse "1.0").toOption = some p.version ∧
        ¬rivalOverlays.IsFrom "dev-libs/a" (1 - place) p := by
  decide +kernel

/-- The package of the first overlay is selected, though that of the second is a choice of its
tier and its version. -/
theorem exists_rivals :
    ∃ p q, rivalOverlays.best (.ofName "dev-libs/a") = .ok p ∧
      rivalOverlays.IsChoice (.ofName "dev-libs/a") q ∧ q.stability = p.stability ∧
      q.version.compare p.version = .eq ∧ rivalOverlays.IsFrom "dev-libs/a" 1 q ∧
      ¬rivalOverlays.IsFrom "dev-libs/a" 1 p := by
  have hchoices := choices_rivalOverlays
  have hbest := best_rivalOverlays
  obtain ⟨hmain, hmainAll⟩ := packagesAt_rivalOverlays 0 (by simp)
  obtain ⟨hboard, hboardAll⟩ := packagesAt_rivalOverlays 1 (by simp)
  obtain ⟨p, hp⟩ := List.length_eq_one_iff.1 hmain
  obtain ⟨q, hq⟩ := List.length_eq_one_iff.1 hboard
  rw [hp] at hmainAll hchoices hbest
  rw [hq] at hchoices
  obtain ⟨hpStability, hpVersion, hpPlace⟩ := hmainAll p (by simp)
  obtain ⟨hqStability, hqVersion, _⟩ := hboardAll q (by simp [hq])
  have hversion : p.version = q.version := Option.some.inj (hpVersion.symm.trans hqVersion)
  refine ⟨p, q, toOption_eq_some_iff.1 hbest,
    (mem_choices_iff (toOption_eq_some_iff.1 hchoices)).1 (by simp), ?_, ?_,
    mem_packagesAt.1 (by simp [hq]), hpPlace⟩
  · rw [toOption_eq_some_iff.1 hpStability, toOption_eq_some_iff.1 hqStability]
  · rw [hversion]
    exact Std.ReflCmp.compare_self

/-- Of two overlays with a choice of an equal version each, the first one in the list decides. -/
theorem best_isOfFirst_rivals :
    let a : Atom := .ofName "dev-libs/a"
    ∃ p q, rivalOverlays.best a = .ok p ∧ rivalOverlays.IsChoice a q ∧
      rivalOverlays.IsFrom "dev-libs/a" 1 q ∧
      ∃ place, rivalOverlays.IsFrom "dev-libs/a" place p ∧ place < 1 := by
  intro a
  obtain ⟨p, q, hbest, hchoice, hstability, hversion, hq, hp⟩ := exists_rivals
  obtain ⟨place, hplace, hfirst⟩ := best_isOfFirstRepository hbest
  obtain ⟨hle, _⟩ := hfirst q hchoice hstability hversion 1 hq
  have hne : place ≠ 1 := fun heq => hp (heq ▸ hplace)
  exact ⟨p, q, hbest, hchoice, hq, place, hplace, by omega⟩

/-- Repositories are listed in increasing priority, and yet what is selected need not be from the
last one in the list that has a choice of its tier with an equal version. -/
theorem best_isOfLowerPriority_rivals :
    let a : Atom := .ofName "dev-libs/a"
    ¬∀ p q, rivalOverlays.best a = .ok p → rivalOverlays.IsChoice a q →
      q.stability = p.stability → q.version.compare p.version = .eq →
      ∀ other, rivalOverlays.IsFrom "dev-libs/a" other q →
        ∃ place, rivalOverlays.IsFrom "dev-libs/a" place p ∧ other ≤ place := by
  intro a h
  obtain ⟨p, q, hbest, hchoice, hstability, hversion, hq, hp⟩ := exists_rivals
  obtain ⟨place, hplace, hle⟩ := h p q hbest hchoice hstability hversion 1 hq
  obtain ⟨_, hrepository, _⟩ := id hplace
  have hlt : place < 2 := (List.getElem?_eq_some_iff.1 hrepository).1
  obtain rfl : place = 1 := by omega
  exact hp hplace

end Resolver
end EbuildGraph
