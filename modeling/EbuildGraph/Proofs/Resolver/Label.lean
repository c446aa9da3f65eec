import EbuildGraph.Proofs.Repository.Ebuilds
import EbuildGraph.Proofs.Resolver.Selection
import EbuildGraph.Resolver.Search

/-!
# What labels identify

A label names a directory and a slot, and no version.  The directory of an ebuild ends in
its category and its package, and no slot holds a slash and no package name a colon, so the
label tells both parts.  Together with the version it therefore identifies the package that
was selected.

Main results:

- Theorem {lit}`select_eq_ok`: the parts of a selection.
- Theorem {lit}`name_of_label`: packages with one label have one name.
- Theorem {lit}`select_unique`: a label and a version identify a selection.
-/

namespace EbuildGraph
namespace Resolver

variable {r : Resolver} {a b : Atom} {σ τ : Selection}

/-! ## Parts of a selection -/

/-- The directory that a label names. -/
def Selection.directory (σ : Selection) : Path :=
  σ.path.parent?.getD ⟨""⟩

/-- A selection is the selected package with the place of its ebuild. -/
theorem select_eq_ok (h : r.select a = .ok σ) :
    r.best a = .ok σ.package ∧ σ.package.path.stripStart? r.settings.sourceRoot = some σ.path ∧
      σ.label = "//" ++ σ.directory.text ++ ":" ++ σ.package.mainSlot := by
  obtain ⟨p, hp, hlocate⟩ := bind_eq_ok_iff.1 h
  unfold locate at hlocate
  split at hlocate
  · cases hlocate
  · next path hpath =>
    obtain rfl := Except.ok.inj hlocate
    exact ⟨hp, hpath, rfl⟩

/-- Selections of one package are the same. -/
theorem selection_eq (ha : r.select a = .ok σ) (hb : r.select b = .ok τ)
    (h : σ.package = τ.package) : σ = τ := by
  obtain ⟨p, hp, hlocate⟩ := bind_eq_ok_iff.1 ha
  obtain ⟨q, hq, hlocate'⟩ := bind_eq_ok_iff.1 hb
  have hσ : σ.package = p := Except.ok.inj ((select_eq_ok ha).1.symm.trans hp)
  have hτ : τ.package = q := Except.ok.inj ((select_eq_ok hb).1.symm.trans hq)
  rw [← hσ, h, hτ, hlocate'] at hlocate
  exact (Except.ok.inj hlocate).symm

/-- The selected package has the name of the atom and satisfies it. -/
theorem admits_of_select (h : r.select a = .ok σ) :
    σ.package.name = a.name ∧ a.admits σ.package.target = true := by
  obtain ⟨hbest, _⟩ := select_eq_ok h
  obtain ⟨packages, hpackages, hmem⟩ := exists_candidates_of_best hbest
  obtain ⟨hname, hadmits, _⟩ := mem_candidates hpackages hmem
  exact ⟨hname, hadmits⟩

/-- The selected package comes from an ebuild in some repository. -/
theorem ebuild_of_select (h : r.select a = .ok σ) :
    ∃ repository ∈ r.repositories.repositories, ∃ entries,
      r.tree.listDirectory (repository.root.child a.name) = .ok entries ∧
      σ.package.path = (repository.root.child a.name).child
        (Repository.ebuildName a.name σ.package.version) ∧
      Version.parse σ.package.version.text = .ok σ.package.version := by
  obtain ⟨hbest, _⟩ := select_eq_ok h
  obtain ⟨packages, hpackages, hmem⟩ := exists_candidates_of_best hbest
  obtain ⟨_, _, files, hfiles, file, hfile, hpackage⟩ := mem_candidates hpackages hmem
  obtain ⟨hpath, _, hversion, _⟩ := package?_eq_some hpackage
  rw [hpath, hversion]
  exact RepositorySet.mem_ebuilds hfiles hfile

/-! ## Directories -/

/-- Where the directory of a label lies: it ends in category and package, unless the source
root is the ebuild itself. -/
theorem directory_cases {category package : String} (hname : NameParts a.name category package)
    (h : r.select a = .ok σ) :
    ∃ above : List Path.Component,
      (∃ directory, σ.path.parent? = some directory ∧
        r.settings.sourceRoot.components ++ directory.components =
          above ++ [.normal category, .normal package]) ∨
      (σ.path.parent? = none ∧ r.settings.sourceRoot.components =
        above ++ [.normal category, .normal package,
          .normal (Repository.ebuildName a.name σ.package.version)]) := by
  obtain ⟨_, hstrip, _⟩ := select_eq_ok h
  obtain ⟨repository, _, _, _, hpath, _⟩ := ebuild_of_select h
  have hplace := Path.components_stripStart hstrip
  rw [hpath, components_ebuild hname] at hplace
  have hfile : r.settings.sourceRoot.components ++ σ.path.components =
      (repository.root.components ++ [.normal category, .normal package]) ++
        [.normal (Repository.ebuildName a.name σ.package.version)] := by
    rw [hplace, List.append_assoc]
    rfl
  refine ⟨repository.root.components, ?_⟩
  cases hparent : σ.path.parent? with
  | some directory =>
    obtain ⟨last, hlast⟩ := Path.components_parent hparent
    rw [hlast, ← List.append_assoc] at hfile
    exact Or.inl ⟨directory, rfl, (List.append_inj' hfile rfl).1⟩
  | none =>
    rcases Path.components_of_parent_eq_none hparent with hnil | hroot
    · rw [hnil, List.append_nil] at hplace
      exact Or.inr ⟨rfl, hplace⟩
    · rw [hroot] at hfile
      exact nomatch (List.append_inj' hfile rfl).2

/-- The end of a path tells category and package. -/
theorem names_of_append {xs ys : List Path.Component} {c c' p p' : String}
    (h : xs ++ [.normal c, .normal p] = ys ++ [.normal c', .normal p']) : c = c' ∧ p = p' := by
  simpa using (List.append_inj' h rfl).2

/-- The last three components of a path determine the category and the package. -/
theorem names_of_append_file {xs ys : List Path.Component} {c c' p p' f f' : String}
    (h : xs ++ [.normal c, .normal p, .normal f] = ys ++ [.normal c', .normal p', .normal f']) :
    c = c' ∧ p = p' := by
  have hend := (List.append_inj' h rfl).2
  simp only [List.cons.injEq, Path.Component.normal.injEq] at hend
  exact ⟨hend.1, hend.2.1⟩

/-- A package does not lie where an ebuild does. -/
theorem not_name_of_append {name category package other : String}
    (hname : NameParts name category package) {v : Version} {xs ys : List Path.Component}
    {c p : String}
    (h : xs ++ [.normal category, .normal package] =
      ys ++ [.normal c, .normal p, .normal (Repository.ebuildName other v)]) : False := by
  have hlast := congrArg List.getLast? h
  rw [List.getLast?_append_of_ne_nil _ (by simp), List.getLast?_append_of_ne_nil _ (by simp)]
    at hlast
  have heq : package = Repository.ebuildName other v := by simpa using hlast
  exact ne_ebuildName hname other v heq

/-- Category and package are told by the directory of a label. -/
theorem name_of_directory (hqa : a.IsQualified) (hqb : b.IsQualified) (ha : r.select a = .ok σ)
    (hb : r.select b = .ok τ) (h : σ.directory = τ.directory) : a.name = b.name := by
  obtain ⟨category, package, hname⟩ := checkQualified_eq_ok hqa
  obtain ⟨category', package', hname'⟩ := checkQualified_eq_ok hqb
  obtain ⟨above, hcases⟩ := directory_cases hname ha
  obtain ⟨above', hcases'⟩ := directory_cases hname' hb
  suffices hparts : category = category' ∧ package = package' by
    rw [hname.name_eq, hname'.name_eq, hparts.1, hparts.2]
  unfold Selection.directory at h
  rcases hcases with ⟨directory, hparent, hplace⟩ | ⟨hparent, hplace⟩ <;>
    rcases hcases' with ⟨directory', hparent', hplace'⟩ | ⟨hparent', hplace'⟩ <;>
    rw [hparent, hparent'] at h
  · obtain rfl : directory = directory' := h
    exact names_of_append (hplace.symm.trans hplace')
  -- Of a source root that is one ebuild and holds the other, one name would have a dot.
  · obtain rfl : directory = ⟨""⟩ := h
    rw [Path.components_empty, List.append_nil, hplace'] at hplace
    exact (not_name_of_append hname hplace.symm).elim
  · obtain rfl : ⟨""⟩ = directory' := h
    rw [Path.components_empty, List.append_nil, hplace] at hplace'
    exact (not_name_of_append hname' hplace'.symm).elim
  · exact names_of_append_file (hplace.symm.trans hplace')

/-! ## Labels -/

/-- A main slot has no slash, so that a label can be cut behind its path. -/
theorem slash_not_mem_mainSlot (p : Package) : '/' ∉ p.mainSlot.toList := by
  intro hmem
  rw [Package.mainSlot, Package.beforeSlash, String.toList_ofList] at hmem
  have hne := List.all_eq_true.1 List.all_takeWhile '/' hmem
  simp at hne

/-- Behind every colon in the directory of a label there is a slash. -/
theorem slash_mem_of_colon (hqa : a.IsQualified) (ha : r.select a = .ok σ)
    {start rest : List Char} (h : σ.directory.text.toList = start ++ ':' :: rest) :
    '/' ∈ rest := by
  by_contra hrest
  obtain ⟨category, package, hname⟩ := checkQualified_eq_ok hqa
  obtain ⟨above, ⟨directory, hparent, hplace⟩ | ⟨hparent, _⟩⟩ := directory_cases hname ha
  · rw [Selection.directory, hparent] at h
    obtain ⟨last, hlast, hcolon⟩ := Path.colon_mem_of_parent hparent h hrest
    have hend := congrArg List.getLast? hplace
    rw [List.getLast?_append, hlast, List.getLast?_append_of_ne_nil _ (by simp)] at hend
    obtain rfl : last = .normal package := by simpa using hend
    exact hname.colon_not_mem hcolon
  · rw [Selection.directory, hparent] at h
    simp at h

/-- A text with a colon behind it and then no slash is told from the whole. -/
theorem eq_of_append_colon {d e s t : List Char}
    (hd : ∀ start rest, d = start ++ ':' :: rest → '/' ∈ rest)
    (he : ∀ start rest, e = start ++ ':' :: rest → '/' ∈ rest) (hs : '/' ∉ s) (ht : '/' ∉ t)
    (h : d ++ ':' :: s = e ++ ':' :: t) : d = e ∧ s = t := by
  rcases List.append_eq_append_iff.1 h with ⟨middle, hfront, hback⟩ | ⟨middle, hfront, hback⟩
  · rcases middle with _ | ⟨c, middle⟩
    · rw [List.append_nil] at hfront
      exact ⟨hfront.symm, (List.cons.inj hback).2⟩
    · rw [List.cons_append] at hback
      obtain ⟨rfl, rfl⟩ := List.cons.inj hback
      exact absurd (List.mem_append_left _ (he d middle hfront)) hs
  · rcases middle with _ | ⟨c, middle⟩
    · rw [List.append_nil] at hfront
      exact ⟨hfront, (List.cons.inj hback).2.symm⟩
    · rw [List.cons_append] at hback
      obtain ⟨rfl, rfl⟩ := List.cons.inj hback
      exact absurd (List.mem_append_left _ (hd e middle hfront)) ht

/-- A label tells directory and slot. -/
theorem parts_of_label (hqa : a.IsQualified) (hqb : b.IsQualified) (ha : r.select a = .ok σ)
    (hb : r.select b = .ok τ) (h : σ.label = τ.label) :
    σ.directory = τ.directory ∧ σ.package.mainSlot = τ.package.mainSlot := by
  rw [(select_eq_ok ha).2.2, (select_eq_ok hb).2.2] at h
  have hchars : σ.directory.text.toList ++ ':' :: σ.package.mainSlot.toList =
      τ.directory.text.toList ++ ':' :: τ.package.mainSlot.toList := by
    have htext := congrArg String.toList h
    simpa [String.toList_append] using htext
  obtain ⟨hdirectory, hslot⟩ := eq_of_append_colon (fun _ _ => slash_mem_of_colon hqa ha)
    (fun _ _ => slash_mem_of_colon hqb hb) (slash_not_mem_mainSlot _) (slash_not_mem_mainSlot _)
    hchars
  exact ⟨Path.eq_of_text (String.toList_inj.1 hdirectory), String.toList_inj.1 hslot⟩

/-- Packages with one label have one name. -/
theorem name_of_label (hqa : a.IsQualified) (hqb : b.IsQualified) (ha : r.select a = .ok σ)
    (hb : r.select b = .ok τ) (h : σ.label = τ.label) : a.name = b.name :=
  name_of_directory hqa hqb ha hb (parts_of_label hqa hqb ha hb h).1

/-- Versions of selected packages that are written alike are alike. -/
theorem version_of_text (ha : r.select a = .ok σ) (hb : r.select b = .ok τ)
    (h : σ.package.version.text = τ.package.version.text) :
    σ.package.version = τ.package.version := by
  obtain ⟨_, _, _, _, _, hparse⟩ := ebuild_of_select ha
  obtain ⟨_, _, _, _, _, hparse'⟩ := ebuild_of_select hb
  rw [h, hparse'] at hparse
  exact (Except.ok.inj hparse).symm

/-- A label and a version identify a selection. -/
theorem select_unique (hqa : a.IsQualified) (hqb : b.IsQualified) (ha : r.select a = .ok σ)
    (hb : r.select b = .ok τ) (hlabel : σ.label = τ.label)
    (hversion : σ.package.version.text = τ.package.version.text) : σ = τ := by
  have hname := name_of_label hqa hqb ha hb hlabel
  have hslot := (parts_of_label hqa hqb ha hb hlabel).2
  exact selection_eq ha hb (best_unique hname (select_eq_ok ha).1 (select_eq_ok hb).1
    (version_of_text ha hb hversion) hslot)

end Resolver
end EbuildGraph
