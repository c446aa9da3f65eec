import EbuildGraph.Proofs.Repository.Ebuilds
import EbuildGraph.Proofs.Resolver.Selection

/-!
# The preferred package

Candidates are sorted before they are looked through, tier by tier, so the first one that is
met is the newest of the most preferred tier that has any.  The search for a tier stops at a
package whose stability cannot be told; as every tier is searched for in the same packages, it
can only stop so at the first one.

Main definitions:

- {lit}`Resolver.choices`: the candidates for an atom whose ebuilds are not barred.
- {lit}`Resolver.IsChoice`: what it takes for a package to be among them.

Main results:

- Theorem {lit}`best_eq_error_iff`: the ways in which selection fails.
- Theorem {lit}`best_isPreferred`: no choice is of a more preferred tier than what is selected,
  and none of its tier is newer.
-/

namespace EbuildGraph
namespace Resolver

variable {r : Resolver} {a : Atom} {p : Package}

/-! ## Choices -/

/-- The candidates for an atom whose ebuilds are not barred, newest first. -/
def choices (r : Resolver) (a : Atom) : Except Error (List Package) :=
  (r.candidates a).map fun packages => packages.filter fun p => !r.isBarred p

/-- What it takes to be chosen for an atom: a package has an ebuild that can be read and whose file
name is not blocked, it satisfies none of the masks of the configuration, and it satisfies the
atom. -/
structure IsChoice (r : Resolver) (a : Atom) (p : Package) : Prop where
  readable : ∃ repository ∈ r.repositories.repositories, ∃ files,
    repository.ebuilds r.tree a.name = .ok files ∧
      ∃ file ∈ files, r.package? a.name file = some p
  permitted : p.path.fileName?.getD "" ∉ r.settings.overrides.invalidEbuilds
  unmasked : ∀ mask ∈ r.config.maskedPackages, mask.admits p.target = false
  admitted : a.admits p.target = true

/-- A package is barred by the list of invalid ebuilds through its file name. -/
theorem isBarred_eq_false_iff : r.isBarred p = false ↔
    p.path.fileName?.getD "" ∉ r.settings.overrides.invalidEbuilds := by
  simp [isBarred, Overrides.barsEbuild]

/-- A package is eligible if no mask admits it and the atom does. -/
theorem isEligible_iff : r.isEligible a p = true ↔
    (∀ mask ∈ r.config.maskedPackages, mask.admits p.target = false) ∧
      a.admits p.target = true := by
  simp [isEligible, isMasked, masks]

/-- The choices are sorted from the packages of the ebuilds. -/
theorem choices_eq_map (r : Resolver) (a : Atom) :
    r.choices a = (r.repositories.ebuilds r.tree a.name).map fun files =>
      (((r.packagesOf a.name files).filter (r.isEligible a)).insertionSort (isNewer · ·)).filter
        fun p => !r.isBarred p := by
  rw [choices, candidates]
  cases r.repositories.ebuilds r.tree a.name with
  | error err => rfl
  | ok files =>
    simp only [← mergeSort_eq_insertionSort isNewer_trans isNewer_total]
    rfl

/-- The choices for an atom are its eligible packages, newest first, without the barred ones. -/
theorem choices_eq_ok_iff {packages : List Package} : r.choices a = .ok packages ↔
    ∃ files, r.repositories.ebuilds r.tree a.name = .ok files ∧
      (((r.packagesOf a.name files).filter (r.isEligible a)).mergeSort isNewer).filter
        (fun p => !r.isBarred p) = packages := by
  simp only [choices_eq_map, map_eq_ok_iff, mergeSort_eq_insertionSort isNewer_trans isNewer_total]

/-- The choices for an atom are the packages that may be selected for it. -/
theorem mem_choices_iff {packages : List Package} (h : r.choices a = .ok packages) :
    p ∈ packages ↔ r.IsChoice a p := by
  obtain ⟨files, hfiles, rfl⟩ := choices_eq_ok_iff.1 h
  obtain ⟨found, hfound, rfl⟩ := map_eq_ok_iff.1 hfiles
  rw [List.mem_filter, List.mem_mergeSort, List.mem_filter, isEligible_iff, packagesOf,
    List.mem_filterMap, Bool.not_eq_true', isBarred_eq_false_iff]
  constructor
  · rintro ⟨⟨⟨file, hfile, hpackage⟩, hunmasked, hadmitted⟩, hpermitted⟩
    obtain ⟨files, hfiles, hin⟩ := List.mem_flatten.1 hfile
    obtain ⟨repository, hrepository, hebuilds⟩ := exists_of_mem_mapM hfound hfiles
    exact ⟨⟨repository, hrepository, files, hebuilds, file, hin, hpackage⟩, hpermitted,
      hunmasked, hadmitted⟩
  · rintro ⟨⟨repository, hrepository, files, hebuilds, file, hin, hpackage⟩, hpermitted,
      hunmasked, hadmitted⟩
    obtain ⟨others, hothers, hsame⟩ := exists_mem_of_mapM hfound hrepository
    obtain rfl : files = others := Except.ok.inj (hebuilds.symm.trans hsame)
    exact ⟨⟨⟨file, List.mem_flatten.2 ⟨files, hothers, hin⟩, hpackage⟩, hunmasked, hadmitted⟩,
      hpermitted⟩

/-- The choices for an atom are in order, newest first. -/
theorem pairwise_choices {packages : List Package} (h : r.choices a = .ok packages) :
    packages.Pairwise fun p q => isNewer p q = true := by
  obtain ⟨files, _, rfl⟩ := choices_eq_ok_iff.1 h
  exact (List.pairwise_mergeSort isNewer_trans isNewer_total _).filter _

/-- Choices cannot be listed only when the ebuilds of the package cannot. -/
theorem exists_of_choices_eq_error {err : Error} (h : r.choices a = .error err) :
    ∃ path fault, err = .file path fault := by
  rcases bind_eq_error_iff.1 (map_eq_error_iff.1 h) with hfiles | ⟨_, _, hsorted⟩
  · exact RepositorySet.exists_of_ebuilds_eq_error hfiles
  · cases hsorted

/-! ## Searching for a tier -/

/-- Whether the search for a tier goes on behind a package. -/
def IsPassed (tier : Stability) (p : Package) : Prop :=
  ∃ found, p.stability = .ok found ∧ found ≠ tier

variable {tier : Stability} {packages : List Package}

/-- A package that is passed by makes no difference to the scan of a tier. -/
theorem firstOfTier?_cons_of_isPassed (h : IsPassed tier p) :
    firstOfTier? tier (p :: packages) = firstOfTier? tier packages := by
  obtain ⟨found, hfound, hne⟩ := h
  simp [firstOfTier?, hfound, hne]

/-- A scan goes on behind the packages that it passes by. -/
theorem firstOfTier?_append (h : ∀ q ∈ packages, IsPassed tier q) (rest : List Package) :
    firstOfTier? tier (packages ++ rest) = firstOfTier? tier rest := by
  induction packages with
  | nil => rfl
  | cons q packages ih =>
    obtain ⟨hq, hpackages⟩ := List.forall_mem_cons.1 h
    rw [List.cons_append, firstOfTier?_cons_of_isPassed hq, ih hpackages]

/-- The search passes every package, or it ends at the first one that it does not pass. -/
theorem isPassed_or_exists (tier : Stability) (packages : List Package) :
    (∀ q ∈ packages, IsPassed tier q) ∨ ∃ before q after, packages = before ++ q :: after ∧
      (∀ s ∈ before, IsPassed tier s) ∧
        (q.stability = .ok tier ∨ ∃ err, q.stability = .error err) := by
  induction packages with
  | nil => exact Or.inl (by simp)
  | cons q packages ih =>
    cases hq : q.stability with
    | error err => exact Or.inr ⟨[], q, packages, rfl, by simp, Or.inr ⟨err, hq⟩⟩
    | ok found =>
      by_cases htier : found = tier
      · exact Or.inr ⟨[], q, packages, rfl, by simp, Or.inl (htier ▸ hq)⟩
      have hpassed : IsPassed tier q := ⟨found, hq, htier⟩
      rcases ih with hall | ⟨before, s, after, rfl, hbefore, hs⟩
      · exact Or.inl (List.forall_mem_cons.2 ⟨hpassed, hall⟩)
      · exact Or.inr ⟨q :: before, s, after, rfl, List.forall_mem_cons.2 ⟨hpassed, hbefore⟩, hs⟩

/-- A scan finds nothing if it passes by every package. -/
theorem firstOfTier?_eq_none_iff :
    firstOfTier? tier packages = .ok none ↔ ∀ q ∈ packages, IsPassed tier q := by
  constructor
  · intro h
    obtain hall | ⟨before, q, after, rfl, hbefore, hq⟩ := isPassed_or_exists tier packages
    · exact hall
    · rw [firstOfTier?_append hbefore] at h
      obtain hq | ⟨err, hq⟩ := hq <;> simp [firstOfTier?, hq] at h
  · intro h
    rw [← List.append_nil packages, firstOfTier?_append h, firstOfTier?]

/-- A scan fails at the first package whose stability cannot be told, if none before it is of the
tier. -/
theorem firstOfTier?_eq_error_iff {err : Error} : firstOfTier? tier packages = .error err ↔
    ∃ before q after, packages = before ++ q :: after ∧ (∀ s ∈ before, IsPassed tier s) ∧
      q.stability = .error err := by
  constructor
  · intro h
    obtain hall | ⟨before, q, after, rfl, hbefore, hq⟩ := isPassed_or_exists tier packages
    · rw [firstOfTier?_eq_none_iff.2 hall] at h
      cases h
    · rw [firstOfTier?_append hbefore] at h
      obtain hq | ⟨cause, hq⟩ := hq
      · simp [firstOfTier?, hq] at h
      · simp only [firstOfTier?, hq, Except.error.injEq] at h
        exact ⟨before, q, after, rfl, hbefore, h ▸ hq⟩
  · rintro ⟨before, q, after, rfl, hbefore, hq⟩
    rw [firstOfTier?_append hbefore, firstOfTier?, hq]

/-- Nothing is found if every package is passed by in every tier. -/
theorem firstByTier?_eq_none_iff {tiers : List Stability} :
    firstByTier? packages tiers = .ok none ↔ ∀ tier ∈ tiers, ∀ q ∈ packages, IsPassed tier q := by
  induction tiers with
  | nil => simp [firstByTier?]
  | cons first rest ih =>
    rw [List.forall_mem_cons, ← ih, ← firstOfTier?_eq_none_iff, firstByTier?]
    split <;> simp_all

/-- Only the search for the first tier can fail, since afterwards the stability of every package
is known. -/
theorem firstByTier?_eq_error_iff {tiers : List Stability} {err : Error} :
    firstByTier? packages tiers = .error err ↔
      ∃ tier ∈ tiers.head?, firstOfTier? tier packages = .error err := by
  have htold : ∀ first tier, (∀ q ∈ packages, IsPassed first q) →
      firstOfTier? tier packages ≠ .error err := by
    intro first tier hall h
    obtain ⟨before, q, after, rfl, _, hq⟩ := firstOfTier?_eq_error_iff.1 h
    obtain ⟨found, hfound, _⟩ := hall q (by simp)
    exact absurd (hq.symm.trans hfound) nofun
  have hnever : ∀ first tiers, (∀ q ∈ packages, IsPassed first q) →
      firstByTier? packages tiers ≠ .error err := by
    intro first tiers hall
    induction tiers with
    | nil => simp [firstByTier?]
    | cons tier rest ih =>
      rw [firstByTier?]
      split
      · next cause hcause =>
        intro h
        exact htold first tier hall (hcause.trans (h ▸ rfl))
      · simp
      · exact ih
  cases tiers with
  | nil => simp [firstByTier?]
  | cons first rest =>
    simp only [List.head?_cons, Option.mem_def, Option.some.injEq, exists_eq_left']
    rw [firstByTier?]
    split
    · next cause hcause => simp [hcause]
    · next found hfound => simp [hfound]
    · next hnone =>
      rw [hnone]
      exact iff_of_false (hnever first rest (firstOfTier?_eq_none_iff.1 hnone)) (by simp)

/-! ## Outcomes of the selection -/

/-- The best package is the first of its tier among the choices, and there is an error if no tier
has one. -/
theorem best_eq_bind (r : Resolver) (a : Atom) : r.best a = r.choices a >>= fun packages =>
    (firstByTier? packages r.settings.stabilityOrder) >>= fun
      | some p => .ok p
      | none => .error (.noCandidate a.text) := by
  rw [best, choices]
  cases r.candidates a <;> rfl

/-- Selection fails when the choices cannot be listed, when in search of the first tier one is
met whose stability cannot be told, or when none is of any tier. -/
theorem best_eq_error_iff {err : Error} : r.best a = .error err ↔
    r.choices a = .error err ∨ ∃ packages, r.choices a = .ok packages ∧
      ((∃ tier ∈ r.settings.stabilityOrder.head?, firstOfTier? tier packages = .error err) ∨
        (∀ tier ∈ r.settings.stabilityOrder, ∀ q ∈ packages, IsPassed tier q) ∧
          err = .noCandidate a.text) := by
  rw [best_eq_bind, bind_eq_error_iff]
  refine or_congr_right (exists_congr fun packages => and_congr_right fun _ => ?_)
  rw [bind_eq_error_iff, firstByTier?_eq_error_iff, ← firstByTier?_eq_none_iff]
  refine or_congr_right ⟨?_, ?_⟩
  · rintro ⟨found, hfound, h⟩
    cases found with
    | none => exact ⟨hfound, (Except.error.inj h).symm⟩
    | some p => cases h
  · rintro ⟨hnone, rfl⟩
    exact ⟨none, hnone, rfl⟩

/-- Stability cannot be told only because of a keyword. -/
theorem exists_of_stability_eq_error {err : Error} (h : p.stability = .error err) :
    ∃ text, err = .keyword text := by
  obtain ⟨word, _, hword⟩ := exists_of_mapM_eq_error (map_eq_error_iff.1 h)
  unfold Keyword.parse at hword
  dsimp only at hword
  split at hword
  · cases hword
    exact ⟨word, rfl⟩
  · cases hword

/-- A package is of a tier if its stability is that tier. -/
theorem isOfTier_iff : isOfTier tier p = true ↔ p.stability = .ok tier := by
  rw [isOfTier, beq_iff_eq, toOption_eq_some_iff]

/-- What is found first in a sorted list comes before all others that could have been found. -/
theorem rel_of_find? {α : Type} {R : α → α → Prop} {xs : List α} {test : α → Bool} {x y : α}
    (hsorted : xs.Pairwise R) (hrefl : R x x) (hx : xs.find? test = some x) (hy : y ∈ xs)
    (htest : test y = true) : R x y := by
  obtain ⟨_, before, after, rfl, hbefore⟩ := List.find?_eq_some_iff_append.1 hx
  rcases List.mem_append.1 hy with hy | hy
  · have hnot := hbefore y hy
    simp [htest] at hnot
  · rcases List.mem_cons.1 hy with rfl | hy
    · exact hrefl
    · exact (List.pairwise_cons.1 (List.pairwise_append.1 hsorted).2.1).1 y hy

/-- What is selected is a choice of one of the tiers in order, and no choice is preferred to it. -/
theorem isChoice_of_best (h : r.best a = .ok p) : r.IsChoice a p ∧
    ∃ earlier tier later, r.settings.stabilityOrder = earlier ++ tier :: later ∧
      p.stability = .ok tier ∧
      ∀ q, r.IsChoice a q → (∀ other ∈ earlier, q.stability ≠ .ok other) ∧
        (q.stability = .ok tier → (q.version.compare p.version).isLE = true) := by
  obtain ⟨candidates, earlier, tier, later, hcandidates, horder, hearlier, hfirst⟩ := best_eq_ok h
  have hchoices : r.choices a = .ok (candidates.filter fun p => !r.isBarred p) :=
    map_eq_ok_iff.2 ⟨candidates, hcandidates, rfl⟩
  refine ⟨(mem_choices_iff hchoices).1 (List.mem_of_find?_eq_some hfirst), earlier, tier, later,
    horder, isOfTier_iff.1 (List.find?_some hfirst), fun q hq => ⟨?_, ?_⟩⟩
  · intro other hother hstability
    have hnone := List.find?_eq_none.1 (hearlier other hother) q ((mem_choices_iff hchoices).2 hq)
    exact hnone (isOfTier_iff.2 hstability)
  · intro hstability
    have hnewer : isNewer p q = true :=
      rel_of_find? (R := fun p q => isNewer p q = true) (pairwise_choices hchoices)
        (isNewer_of_eq rfl) hfirst ((mem_choices_iff hchoices).2 hq) (isOfTier_iff.2 hstability)
    exact isNewer_eq_true_iff.1 hnewer

/-- There is said to be no candidate only when no choice is of any tier in order. -/
theorem ne_of_best_eq_noCandidate {text : String} (h : r.best a = .error (.noCandidate text))
    {q : Package} (hq : r.IsChoice a q) {tier : Stability}
    (htier : tier ∈ r.settings.stabilityOrder) : q.stability ≠ .ok tier := by
  intro hstability
  rcases best_eq_error_iff.1 h with hlisting | ⟨packages, hpackages, hsearch⟩
  · obtain ⟨path, fault, hfault⟩ := exists_of_choices_eq_error hlisting
    cases hfault
  rcases hsearch with ⟨first, _, hfirst⟩ | ⟨hpassed, _⟩
  · obtain ⟨_, s, _, _, _, hs⟩ := firstOfTier?_eq_error_iff.1 hfirst
    obtain ⟨word, hword⟩ := exists_of_stability_eq_error hs
    cases hword
  · obtain ⟨found, hfound, hne⟩ := hpassed tier htier q ((mem_choices_iff hpackages).2 hq)
    exact hne (Except.ok.inj (hfound.symm.trans hstability))

/-- What is selected for an atom is a choice of one of the tiers in order.  No choice is of a
tier before it, and none of its tier is newer.  That there is no candidate is only said when no
choice is of any tier in order. -/
theorem best_isPreferred (r : Resolver) (a : Atom) :
    (∀ p, r.best a = .ok p → r.IsChoice a p ∧
      ∃ earlier tier later, r.settings.stabilityOrder = earlier ++ tier :: later ∧
        p.stability = .ok tier ∧
        ∀ q, r.IsChoice a q → (∀ other ∈ earlier, q.stability ≠ .ok other) ∧
          (q.stability = .ok tier → (q.version.compare p.version).isLE = true)) ∧
    ∀ text, r.best a = .error (.noCandidate text) →
      ∀ q, r.IsChoice a q → ∀ tier ∈ r.settings.stabilityOrder, q.stability ≠ .ok tier :=
  ⟨fun _ h => isChoice_of_best h, fun _ h _ hq _ htier => ne_of_best_eq_noCandidate h hq htier⟩

/-- An overlay with one ebuild of {lit}`dev-libs/a`. -/
def sampleOverlay (name version text : String) : String × Node :=
  (name, .directory [("dev-libs", .directory [("a", .directory
    [("a-" ++ version ++ ".ebuild", .file (.text text))])])])

/-- Five overlays with one version each, under masks and with blocked ebuilds.  The newest version
is stable, the others are in testing, one of them in an old slot. -/
def sampleOverlays (order : List Stability) (masked : List Atom) (blocked : List String) :
    Resolver where
  tree := {
    root := .directory [sampleOverlay "main" "0.9" "", sampleOverlay "board" "1.5" "",
      sampleOverlay "spare" "1.7" "", sampleOverlay "attic" "1.8" "SLOT=old\n",
      sampleOverlay "extra" "2.0" "KEYWORDS=*\n"]
    workingDirectory := ⟨"/"⟩ }
  repositories :=
    ⟨["main", "board", "spare", "attic", "extra"].map fun name => ⟨⟨"/" ++ name⟩, name, "7"⟩⟩
  config := .profile ⟨"base", NameMap.empty, [{ packageMask := masked.map (⟨·, false⟩) }]⟩
  settings := { stabilityOrder := order, overrides := { invalidEbuilds := blocked } }

/-- The packages of an old slot. -/
def oldSlot : Atom :=
  ⟨"dev-libs/a", none, "old", []⟩

/-- The newest version in testing, then the newest one that is not masked, and then the newest one
that is not blocked either. -/
theorem best_of_tested :
    ∀ sample ∈ [([], [], "/attic/dev-libs/a/a-1.8.ebuild"),
        ([oldSlot], [], "/spare/dev-libs/a/a-1.7.ebuild"),
        ([oldSlot], ["a-1.7.ebuild"], "/board/dev-libs/a/a-1.5.ebuild")],
      ((sampleOverlays [.testing, .stable] sample.1 sample.2.1).best
          (.ofName "dev-libs/a")).toOption.map (fun p => (p.path, p.stability.toOption)) =
        some (⟨sample.2.2⟩, some .testing) := by
  simp only [best_eq_bind, choices_eq_map]
  decide +kernel

theorem best_of_broken : (match (sampleOverlays [.broken] [] []).best (.ofName "dev-libs/a") with
    | .error (.noCandidate _) => true
    | _ => false) = true := by
  rw [best_eq_bind, choices_eq_map]
  decide +kernel

/-- With packages in testing preferred, the newest of these that is neither masked nor blocked is
selected; when only broken ones are asked for, there is no candidate. -/
theorem best_sampleOverlays :
    let a : Atom := .ofName "dev-libs/a"
    let tested := sampleOverlays [.testing, .stable] [oldSlot] ["a-1.7.ebuild"]
    let broken := sampleOverlays [.broken] [] []
    (∃ p, tested.best a = .ok p ∧ p.path = ⟨"/board/dev-libs/a/a-1.5.ebuild"⟩ ∧
      p.path.fileName?.getD "" ∉ ["a-1.7.ebuild"] ∧ oldSlot.admits p.target = false ∧
      ∀ q, tested.IsChoice a q → q.stability = .ok .testing →
        (q.version.compare p.version).isLE = true) ∧
    ∃ text, broken.best a = .error (.noCandidate text) ∧
      ∀ q, broken.IsChoice a q → q.stability ≠ .ok .broken := by
  intro a tested broken
  constructor
  · have hbest := best_of_tested
      ([oldSlot], ["a-1.7.ebuild"], "/board/dev-libs/a/a-1.5.ebuild") (by simp)
    obtain ⟨p, hp, hseen⟩ := Option.map_eq_some_iff.1 hbest
    obtain ⟨hpath, htesting⟩ := Prod.mk.inj hseen
    have hok : tested.best a = .ok p := toOption_eq_some_iff.1 hp
    obtain ⟨hchoice, _, tier, _, -, htier, hpreferred⟩ := (best_isPreferred tested a).1 p hok
    obtain rfl : tier = .testing :=
      Except.ok.inj (htier.symm.trans (toOption_eq_some_iff.1 htesting))
    have hmask : oldSlot ∈ tested.config.maskedPackages := List.mem_singleton_self _
    exact ⟨p, hok, hpath, hchoice.permitted, hchoice.unmasked _ hmask,
      fun q hq => (hpreferred q hq).2⟩
  · have hbest := best_of_broken
    split at hbest
    · next text hnone =>
      exact ⟨text, hnone, fun q hq =>
        (best_isPreferred broken a).2 text hnone q hq .broken List.mem_cons_self⟩
    · cases hbest

end Resolver
end EbuildGraph
