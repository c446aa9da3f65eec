import EbuildGraph.Proofs.FileTree.Listing
import EbuildGraph.Proofs.Resolver.Preference

/-!
# Selecting with a new ebuild

A new ebuild in the directory of a package is one more ebuild of it, which is listed among the
others and read with them.  When it cannot be read, is masked or barred, or does not satisfy the
atom, the choices stay as they are.  Otherwise it is one more choice, and the only thing that
selection can stop at is its stability: keywords that say nothing make the selection fail when
they are met before any package of the most preferred tier.

Main definitions:

- {lit}`Resolver.NewEbuild`: an ebuild to be put into the directory of a package.
- {lit}`Resolver.NewEbuild.resolver`: the resolver with the new ebuild.
- {lit}`Resolver.NewEbuild.IsAlone`: that nothing else changes with the new ebuild.
- {lit}`Resolver.NewEbuild.StopsWith`: that selection stops at the new ebuild.

Main results:

- Theorem {lit}`NewEbuild.exists_choices`: the choices with the new ebuild.
- Theorem {lit}`NewEbuild.best_fails_iff`: when a new ebuild makes selection fail.
-/

namespace EbuildGraph

/-! ## Names of ebuilds -/

namespace Repository

/-- Ebuilds of one name are of one version. -/
theorem version_eq_of_ebuildName_eq {name : String} {v w : Version}
    (hv : Version.parse v.text = .ok v) (hw : Version.parse w.text = .ok w)
    (h : ebuildName name v = ebuildName name w) : v = w := by
  have htext : v.text = w.text := by
    simpa [ebuildName, String.append_assoc] using h
  rw [htext] at hv
  exact Except.ok.inj (hv.symm.trans hw)

/-- What the name of an ebuild of a package is read as. -/
theorem ebuildNamed?_ebuildName {name : String} {v : Version} {dir : Path} {node : Node}
    {file : EbuildFile} (hv : Version.parse v.text = .ok v)
    (h : ebuildNamed? (Text.afterLast '/' name) dir (ebuildName name v, node) = some file) :
    file = ⟨dir.child (ebuildName name v), v⟩ := by
  unfold ebuildNamed? at h
  split at h
  · cases h
  obtain ⟨version, hversion, rfl⟩ := Option.map_eq_some_iff.1 h
  obtain ⟨hname, hparse⟩ := fileName_of_version hversion
  rw [version_eq_of_ebuildName_eq hv hparse hname]

end Repository

namespace Resolver

/-! ## New ebuilds -/

/-- An ebuild that is put into the directory of a package in one of the repositories, under a
name that no entry there has. -/
structure NewEbuild (r : Resolver) (name : String) where
  repository : Repository
  trail : FileTree.Trail
  entries : List (String × Node)
  version : Version
  contents : Contents
  isRepository : repository ∈ r.repositories.repositories
  leads : r.tree.trailOf .existing (repository.root.child name) = .ok trail
  lists : r.tree.nodeAt trail = .directory entries
  isVersion : Version.parse version.text = .ok version
  isVacant : entries.lookup (Repository.ebuildName name version) = none

namespace NewEbuild

variable {r : Resolver} {name : String} (e : NewEbuild r name)

/-- The name of the new file. -/
def fileName : String :=
  Repository.ebuildName name e.version

/-- The tree with the new ebuild. -/
def tree : FileTree :=
  r.tree.place (FileTree.placeOf e.trail ++ [e.fileName]) (.file e.contents)

/-- The resolver with the new ebuild. -/
def resolver : Resolver :=
  { r with tree := e.tree }

/-- The new ebuild as a repository finds it.  It does when its directory of the package is the
one that the ebuild was put into. -/
def IsFile (file : EbuildFile) : Prop :=
  ∃ repository ∈ r.repositories.repositories,
    r.tree.trailOf .existing (repository.root.child name) = .ok e.trail ∧
      file = ⟨(repository.root.child name).child e.fileName, e.version⟩

/-- The package that the new ebuild gives. -/
def IsPackage (q : Package) : Prop :=
  ∃ file, e.IsFile file ∧ e.resolver.package? name file = some q

/-- Whether nothing else changes with the new ebuild: the ebuilds of the package that were there
are read as before, and where there was no directory of the package there is none. -/
structure IsAlone : Prop where
  kept : ∀ files, r.repositories.ebuilds r.tree name = .ok files →
    ∀ file ∈ files, e.resolver.package? name file = r.package? name file
  absent : ∀ repository ∈ r.repositories.repositories,
    r.tree.listDirectory (repository.root.child name) = .error .notFound →
      e.tree.listDirectory (repository.root.child name) = .error .notFound

/-! ### Ebuilds -/

variable {e}

/-- The ebuilds of the package that a repository lists with the new one. -/
theorem exists_ebuilds_of_repository (halone : e.IsAlone) {repository : Repository}
    {files : List EbuildFile} (hrepository : repository ∈ r.repositories.repositories)
    (h : repository.ebuilds r.tree name = .ok files) :
    ∃ files', repository.ebuilds e.tree name = .ok files' ∧ Extends e.IsFile files files' := by
  unfold Repository.ebuilds at h
  dsimp only at h
  split at h
  · next hmissing =>
    refine ⟨[], ?_, Except.ok.inj h ▸ .nil⟩
    exact Repository.ebuilds_of_notFound (halone.absent repository hrepository hmissing)
  · cases h
  · next entries hentries =>
    obtain ⟨renewed, hrenewed, hextends⟩ := FileTree.listDirectory_place
      (g := Repository.ebuildNamed? (Text.afterLast '/' name) (repository.root.child name))
      e.contents (FileTree.isTrail_of_trailOf e.leads) e.lists e.isVacant (fun _ _ => rfl) hentries
    have hfound : Extends e.IsFile _ _ := hextends.imp fun file ⟨hsame, hread⟩ =>
      ⟨repository, hrepository, hsame, Repository.ebuildNamed?_ebuildName e.isVersion hread⟩
    exact ⟨_, Repository.ebuilds_of_listDirectory hrenewed, Except.ok.inj h ▸
      hfound.mergeSort Repository.comesBefore_trans Repository.comesBefore_total⟩

/-- The ebuilds of the package with the new one. -/
theorem exists_ebuilds (halone : e.IsAlone) {files : List EbuildFile}
    (h : r.repositories.ebuilds r.tree name = .ok files) :
    ∃ files', r.repositories.ebuilds e.tree name = .ok files' ∧
      Extends e.IsFile files files' := by
  obtain ⟨found, hfound, rfl⟩ := map_eq_ok_iff.1 h
  have hall : ∀ repositories found, repositories ⊆ r.repositories.repositories →
      List.Forall₂ (fun (s : Repository) files => s.ebuilds r.tree name = .ok files)
        repositories found →
      ∃ found', List.Forall₂ (fun (s : Repository) files => s.ebuilds e.tree name = .ok files)
        repositories found' ∧ List.Forall₂ (Extends e.IsFile) found found' := by
    intro repositories found hsubset hfound
    induction hfound with
    | nil => exact ⟨[], .nil, .nil⟩
    | cons hfirst _ ih =>
      obtain ⟨hmem, hrest⟩ := List.cons_subset.1 hsubset
      obtain ⟨files', hfiles', hextends⟩ := exists_ebuilds_of_repository halone hmem hfirst
      obtain ⟨rest', hrest', hall⟩ := ih hrest
      exact ⟨files' :: rest', .cons hfiles' hrest', .cons hextends hall⟩
  obtain ⟨found', hfound', hextends⟩ := hall _ _ (List.Subset.refl _) (mapM_eq_ok_iff.1 hfound)
  exact ⟨_, map_eq_ok_iff.2 ⟨found', mapM_eq_ok_iff.2 hfound', rfl⟩, .flatten hextends⟩

/-! ### Choices -/

variable {a : Atom} {e : NewEbuild r a.name} {p : Package}

/-- With the new ebuild the choices are those that there were, in the same order, and between
them at most the package of the new ebuild. -/
theorem exists_choices (halone : e.IsAlone) {packages : List Package}
    (h : r.choices a = .ok packages) :
    ∃ packages', e.resolver.choices a = .ok packages' ∧
      Extends e.IsPackage packages packages' := by
  obtain ⟨files, hfiles, rfl⟩ := choices_eq_ok_iff.1 h
  obtain ⟨files', hfiles', hextends⟩ := exists_ebuilds halone hfiles
  have hpackages : Extends e.IsPackage (r.packagesOf a.name files)
      (e.resolver.packagesOf a.name files') :=
    hextends.filterMap (halone.kept files hfiles) fun file q hfile hq => ⟨file, hfile, hq⟩
  exact ⟨_, choices_eq_ok_iff.2 ⟨files', hfiles', rfl⟩,
    ((hpackages.filter (r.isEligible a)).mergeSort isNewer_trans isNewer_total).filter _⟩

end NewEbuild

/-! ## Selection -/

/-- Where the search for a tier fails in a list with further members only, it fails at one of
these. -/
theorem exists_new_of_firstOfTier?_eq_error {new : Package → Prop} {tier : Stability} {err : Error}
    {packages packages' : List Package} (h : Extends new packages packages')
    (hold : ∀ err, firstOfTier? tier packages ≠ .error err)
    (herror : firstOfTier? tier packages' = .error err) :
    ∃ before q after, packages' = before ++ q :: after ∧ (∀ s ∈ before, IsPassed tier s) ∧
      new q ∧ q.stability = .error err := by
  induction h with
  | nil => cases herror
  | @keep p packages packages' _ ih =>
    cases hp : p.stability with
    | error cause => exact absurd (by simp [firstOfTier?, hp]) (hold cause)
    | ok found =>
      by_cases htier : found = tier
      · simp [firstOfTier?, hp, htier] at herror
      have hpassed : IsPassed tier p := ⟨found, hp, htier⟩
      rw [firstOfTier?_cons_of_isPassed hpassed] at herror
      obtain ⟨before, q, after, rfl, hbefore, hq⟩ :=
        ih (by simpa [firstOfTier?_cons_of_isPassed hpassed] using hold) herror
      exact ⟨p :: before, q, after, rfl, List.forall_mem_cons.2 ⟨hpassed, hbefore⟩, hq⟩
  | @add p hnew packages packages' _ ih =>
    cases hp : p.stability with
    | error cause =>
      simp only [firstOfTier?, hp, Except.error.injEq] at herror
      exact ⟨[], p, packages', rfl, by simp, hnew, herror ▸ hp⟩
    | ok found =>
      by_cases htier : found = tier
      · simp [firstOfTier?, hp, htier] at herror
      have hpassed : IsPassed tier p := ⟨found, hp, htier⟩
      rw [firstOfTier?_cons_of_isPassed hpassed] at herror
      obtain ⟨before, q, after, rfl, hbefore, hq⟩ := ih hold herror
      exact ⟨p :: before, q, after, rfl, List.forall_mem_cons.2 ⟨hpassed, hbefore⟩, hq⟩

namespace NewEbuild

variable {r : Resolver} {a : Atom} {e : NewEbuild r a.name} {p q : Package}

/-- The package read from the new file has the version of its name. -/
theorem IsPackage.version_eq {name : String} {e : NewEbuild r name} (h : e.IsPackage q) :
    q.version = e.version := by
  obtain ⟨file, ⟨_, _, _, rfl⟩, hq⟩ := h
  exact (package?_eq_some hq).2.2.1

/-- Where a package was selected, some tier is looked for, and the search for the first one does
not fail. -/
theorem exists_head_of_best (h : r.best a = .ok p) :
    ∃ packages tier, r.choices a = .ok packages ∧ r.settings.stabilityOrder.head? = some tier ∧
      (∀ err, firstOfTier? tier packages ≠ .error err) ∧
      ∃ q ∈ packages, ∃ tier ∈ r.settings.stabilityOrder, q.stability = .ok tier := by
  obtain ⟨candidates, earlier, tier, later, hcandidates, horder, -, hfirst⟩ := best_eq_ok h
  have hchoices : r.choices a = .ok (candidates.filter fun p => !r.isBarred p) :=
    map_eq_ok_iff.2 ⟨candidates, hcandidates, rfl⟩
  obtain ⟨first, hhead⟩ : ∃ first, r.settings.stabilityOrder.head? = some first := by
    rw [horder]
    cases earlier <;> simp
  refine ⟨_, first, hchoices, hhead, fun err herr => ?_, p, List.mem_of_find?_eq_some hfirst, tier,
    by simp [horder], isOfTier_iff.1 (List.find?_some hfirst)⟩
  have hfails := best_eq_error_iff.2 (Or.inr ⟨_, hchoices, Or.inl ⟨first, hhead, herr⟩⟩)
  exact absurd (h.symm.trans hfails) nofun

/-- Whether selection stops at the new ebuild: its package is a choice whose stability cannot be
told, and which is met before every choice of the first tier in order. -/
def StopsWith (e : NewEbuild r a.name) (err : Error) : Prop :=
  ∃ before q after, e.resolver.choices a = .ok (before ++ q :: after) ∧ e.IsPackage q ∧
    q.stability = .error err ∧
    ∀ tier ∈ r.settings.stabilityOrder.head?, ∀ s ∈ before, IsPassed tier s

/-- The new ebuild breaks a search that worked before exactly if it stops the search itself. -/
theorem best_eq_error_iff_stopsWith (halone : e.IsAlone) (hbest : r.best a = .ok p) {err : Error} :
    e.resolver.best a = .error err ↔ e.StopsWith err := by
  obtain ⟨packages, first, hchoices, hhead, hold, selected, hselected, tier, htier, hstability⟩ :=
    exists_head_of_best hbest
  obtain ⟨packages', hchoices', hextends⟩ := exists_choices halone hchoices
  rw [best_eq_error_iff, StopsWith, hchoices']
  constructor
  · rintro (hlisting | ⟨found, hfound, ⟨head, hmem, hfirst⟩ | ⟨hpassed, -⟩⟩)
    · cases hlisting
    · obtain rfl := Except.ok.inj hfound
      obtain rfl : first = head := Option.some.inj (hhead.symm.trans hmem)
      obtain ⟨before, q, after, rfl, hbefore, hnew, hq⟩ :=
        exists_new_of_firstOfTier?_eq_error hextends hold hfirst
      refine ⟨before, q, after, rfl, hnew, hq, fun tier hmem => ?_⟩
      rwa [← Option.some.inj (hhead.symm.trans hmem)]
    · obtain rfl := Except.ok.inj hfound
      obtain ⟨found, hfound, hne⟩ := hpassed tier htier selected (hextends.subset hselected)
      exact absurd (Except.ok.inj (hfound.symm.trans hstability)) hne
  · rintro ⟨before, q, after, hsplit, -, hq, hbefore⟩
    obtain rfl := Except.ok.inj hsplit
    exact Or.inr ⟨_, rfl, Or.inl ⟨first, hhead,
      firstOfTier?_eq_error_iff.2 ⟨before, q, after, rfl, hbefore first hhead, hq⟩⟩⟩

/-- Selection does not stop at a new ebuild that is older than a choice of the first tier. -/
theorem not_stopsWith_of_newer (halone : e.IsAlone) (hbest : r.best a = .ok p) {err : Error}
    {tier : Stability} (htier : tier ∈ r.settings.stabilityOrder.head?) (hq : r.IsChoice a q)
    (hstability : q.stability = .ok tier) (hnewer : e.version.compare q.version = .lt) :
    ¬ e.StopsWith err := by
  rintro ⟨before, s, after, hsplit, hnew, hs, hbefore⟩
  obtain ⟨packages, -, hchoices, -⟩ := exists_head_of_best hbest
  obtain ⟨packages', hchoices', hextends⟩ := exists_choices halone hchoices
  obtain rfl := Except.ok.inj (hchoices'.symm.trans hsplit)
  rcases List.mem_append.1 (hextends.subset ((mem_choices_iff hchoices).2 hq)) with hin | hin
  · obtain ⟨found, hfound, hne⟩ := hbefore tier htier q hin
    exact hne (Except.ok.inj (hfound.symm.trans hstability))
  rcases List.mem_cons.1 hin with rfl | hin
  · exact absurd (hs.symm.trans hstability) nofun
  · have hsorted := (List.pairwise_append.1 (pairwise_choices hsplit)).2.1
    have hle := isNewer_eq_true_iff.1 ((List.pairwise_cons.1 hsorted).1 q hin)
    have hswap : q.version.compare e.version = (e.version.compare q.version).swap :=
      Std.OrientedCmp.eq_swap
    rw [hnew.version_eq, hswap, hnewer] at hle
    cases hle

/-- Where a package was selected for an atom, selection fails with a new ebuild exactly when it
stops there.  So it does not fail when the stability of the new package can be told, or when a
choice of the first tier is newer. -/
theorem best_fails_iff (e : NewEbuild r a.name) (halone : e.IsAlone) (hbest : r.best a = .ok p) :
    (∀ err, e.resolver.best a = .error err ↔ e.StopsWith err) ∧
    ((∀ q, e.IsPackage q → e.resolver.IsChoice a q → ∃ tier, q.stability = .ok tier) ∨
      (∃ tier ∈ r.settings.stabilityOrder.head?, ∃ s, r.IsChoice a s ∧ s.stability = .ok tier ∧
        e.version.compare s.version = .lt) →
      ∃ q, e.resolver.best a = .ok q) := by
  refine ⟨fun err => best_eq_error_iff_stopsWith halone hbest, fun hharmless => ?_⟩
  cases houtcome : e.resolver.best a with
  | ok q => exact ⟨q, rfl⟩
  | error err =>
    have hstops := (best_eq_error_iff_stopsWith halone hbest).1 houtcome
    rcases hharmless with hvalid | ⟨tier, htier, s, hs, hstability, hnewer⟩
    · obtain ⟨before, q, after, hsplit, hnew, hq, -⟩ := hstops
      obtain ⟨tier, htier⟩ := hvalid q hnew ((mem_choices_iff hsplit).1 (by simp))
      exact absurd (hq.symm.trans htier) nofun
    · exact absurd hstops (not_stopsWith_of_newer halone hbest htier hs hstability hnewer)

/-! ### An older ebuild of a stable package -/

/-- The directory of a package with one ebuild, which is stable. -/
def stableEntries : List (String × Node) :=
  [("a-1.ebuild", .file (.text "KEYWORDS=*\n"))]

/-- An overlay with that package only. -/
def stableResolver : Resolver where
  tree := {
    root := .directory [("overlay", .directory [("app", .directory
      [("a", .directory stableEntries)])])]
    workingDirectory := ⟨"/"⟩ }
  repositories := ⟨[⟨⟨"/overlay"⟩, "overlay", "7"⟩]⟩
  config := .fixed "" []
  settings := { overrides := .none }

/-- An ebuild of version {lit}`0` for the package. -/
def olderEbuild (text : String) : NewEbuild stableResolver (Atom.ofName "app/a").name where
  repository := ⟨⟨"/overlay"⟩, "overlay", "7"⟩
  trail := [("a", .directory stableEntries), ("app", .directory [("a", .directory stableEntries)]),
    ("overlay", .directory [("app", .directory [("a", .directory stableEntries)])])]
  entries := stableEntries
  version := Version.zero
  contents := .text text
  isRepository := List.mem_singleton_self _
  leads := by rfl
  lists := rfl
  isVersion := by rfl
  isVacant := by rfl

/-- An ebuild that is no list of assignments. -/
def unreadableText : String := "true\n"

/-- An ebuild whose only keyword lacks an architecture. -/
def unkeywordedText : String := "KEYWORDS=\"~\"\n"

theorem exists_best_stableResolver : ∃ p, stableResolver.best (.ofName "app/a") = .ok p :=
  isOk_iff_exists.1 (by decide +kernel)

theorem isAlone_olderEbuild {text : String} (h : text ∈ [unreadableText, unkeywordedText]) :
    (olderEbuild text).IsAlone where
  kept := by
    intro files hfiles file hfile
    have hread : ∀ text ∈ [unreadableText, unkeywordedText],
        (stableResolver.repositories.ebuilds stableResolver.tree "app/a").toOption.all
          (List.all · fun file => (olderEbuild text).resolver.package? "app/a" file =
            stableResolver.package? "app/a" file) = true := by
      decide +kernel
    have hall := hread text h
    rw [show stableResolver.repositories.ebuilds stableResolver.tree "app/a" = _ from hfiles]
      at hall
    exact of_decide_eq_true (List.all_eq_true.1 hall file hfile)
  absent := by
    intro repository hrepository hmissing
    obtain rfl := List.mem_singleton.1 hrepository
    have hlisted : stableResolver.tree.listDirectory (Path.child ⟨"/overlay"⟩ "app/a") =
        .ok stableEntries := by rfl
    exact absurd (hlisted.symm.trans hmissing) nofun

theorem best_of_unkeyworded :
    ((olderEbuild unkeywordedText).resolver.best (.ofName "app/a")).toOption.isSome = false := by
  have hlisted : (olderEbuild unkeywordedText).tree.listDirectory
      (Path.child ⟨"/overlay"⟩ "app/a") =
        .ok (stableEntries ++ [("a-0.ebuild", .file (.text unkeywordedText))]) := by rfl
  have hebuilds : (olderEbuild unkeywordedText).resolver.repositories.ebuilds
      (olderEbuild unkeywordedText).resolver.tree (Atom.ofName "app/a").name = .ok _ :=
    map_eq_ok_iff.2 ⟨_, mapM_eq_ok_iff.2 (.cons (Repository.ebuilds_of_listDirectory hlisted) .nil),
      rfl⟩
  rw [best_eq_bind, choices_eq_map, hebuilds,
    mergeSort_eq_insertionSort Repository.comesBefore_trans Repository.comesBefore_total]
  decide +kernel

/-- An older ebuild that cannot be read does no harm; one without proper keywords is a choice
that makes selection fail. -/
theorem best_olderEbuild :
    (∃ q, (olderEbuild unreadableText).resolver.best (.ofName "app/a") = .ok q) ∧
      ∃ q, (olderEbuild unkeywordedText).IsPackage q ∧ ∃ err, q.stability = .error err ∧
        (olderEbuild unkeywordedText).resolver.best (.ofName "app/a") = .error err := by
  obtain ⟨p, hp⟩ := exists_best_stableResolver
  constructor
  · refine (best_fails_iff (olderEbuild unreadableText) (isAlone_olderEbuild (by simp)) hp).2
      (Or.inl ?_)
    rintro q ⟨file, ⟨repository, hrepository, _, rfl⟩, hq⟩ _
    obtain rfl := List.mem_singleton.1 hrepository
    have hnone : (olderEbuild unreadableText).resolver.package? "app/a"
        ⟨⟨"/overlay/app/a/a-0.ebuild"⟩, Version.zero⟩ = none := by
      decide +kernel
    exact absurd (hnone.symm.trans hq) nofun
  · have hfails := best_of_unkeyworded
    cases hbest : (olderEbuild unkeywordedText).resolver.best (.ofName "app/a") with
    | ok q =>
      rw [hbest] at hfails
      cases hfails
    | error err =>
      obtain ⟨before, q, after, _, hnew, hq, _⟩ :=
        ((best_fails_iff (olderEbuild unkeywordedText) (isAlone_olderEbuild (by simp)) hp).1
          err).1 hbest
      exact ⟨q, hnew, err, hq, rfl⟩

/-- The stable package can be selected, and with an older ebuild without proper keywords beside
it no longer. -/
theorem best_olderEbuild_unkeyworded :
    (∃ p, stableResolver.best (.ofName "app/a") = .ok p) ∧
      (olderEbuild unkeywordedText).IsAlone ∧
      ¬ ∃ q, (olderEbuild unkeywordedText).resolver.best (.ofName "app/a") = .ok q := by
  refine ⟨exists_best_stableResolver, isAlone_olderEbuild (by simp), ?_⟩
  rintro ⟨q, hq⟩
  have hfails := best_of_unkeyworded
  rw [hq] at hfails
  cases hfails

end NewEbuild
end Resolver
end EbuildGraph
