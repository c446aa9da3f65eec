import EbuildGraph.Ebuild
import EbuildGraph.Proofs.Repository.Ebuilds
import EbuildGraph.Proofs.Version.Language

/-!
# Ebuilds that are listed and ebuilds that are read

The ebuilds of a package are listed by their names and read by their paths.  A listing knows the
package and looks for a version behind its name; a reader is given a path, takes the longest
version off the end of the file name, and compares what is left with the directories around it.
Both see an ebuild in a file exactly when its name is that of the package, a hyphen, the text of a
version and the ending of ebuilds, so they split every name at the same hyphen.

Main results:

- Theorem {lit}`Repository.versionOfFileName?_eq_some_iff`: the names that a listing accepts.
- Theorem {lit}`Ebuild.packageOfPath_child_eq_ok_iff`: the names that a reader accepts.
- Theorem {lit}`Repository.listed_iff_extracted`: both accept the same files, as the same
  versions of the same package.
-/

namespace EbuildGraph

/-! ## Names that a listing accepts -/

/-- A name is listed when it spells the package and a version. -/
theorem Repository.versionOfFileName?_eq_some_iff {shortName fileName : String} {v : Version} :
    versionOfFileName? shortName fileName = some v ↔
      fileName = shortName ++ "-" ++ v.text ++ ebuildEnding := by
  constructor
  · exact fun h => (fileName_of_version h).1
  · rintro rfl
    have hparse : (Version.parse v.text).toOption = some v :=
      toOption_eq_some_iff.2 (Version.parse_eq_ok_iff.2 rfl)
    have hstart : shortName ++ "-" ++ v.text ++ ebuildEnding =
        shortName ++ "-" ++ (v.text ++ ebuildEnding) := String.append_assoc
    rw [versionOfFileName?, hstart, Text.dropStart?_append, Option.bind_some,
      Text.dropEnd?_append, Option.bind_some, hparse]

/-! ## Paths that a reader accepts -/

/-- A text ends in a version behind a hyphen exactly when it is split there. -/
theorem Version.splitTrailing_eq_ok_iff {s name : String} {v : Version} :
    splitTrailing s = .ok (name ++ "-", v) ↔ s = name ++ "-" ++ v.text := by
  constructor
  · exact fun h => (append_text_of_splitTrailing h).symm
  · rintro rfl
    exact splitTrailing_append (Or.inr (by simp)) v

namespace Ebuild

/-- The directories that a path lies in are its components before the last, innermost first. -/
theorem directoryNames_of_components {path : Path} {front : List Path.Component}
    {category shortName : String} {last : Path.Component}
    (h : path.components = front ++ [.normal category, .normal shortName, last]) :
    ∃ rest, directoryNames path = shortName :: category :: rest := by
  have hpath : path.components = (front ++ [.normal category, .normal shortName]) ++ [last] := by
    simp [h]
  obtain ⟨package, hpackage, hpackageComponents⟩ :=
    Path.exists_parent_of_components hpath (by simp)
  have hinner : package.components = (front ++ [.normal category]) ++ [.normal shortName] := by
    simp [hpackageComponents]
  obtain ⟨directory, hdirectory, hdirectoryComponents⟩ :=
    Path.exists_parent_of_components hinner (by simp)
  have hlength : path.components.length + 1 = (front.length + 2) + 2 := by simp [h]
  refine ⟨(Path.ancestorsUpTo (front.length + 2) directory).filterMap Path.fileName?, ?_⟩
  rw [directoryNames, Path.ancestors, hlength, Path.ancestorsUpTo_succ hpackage,
    Path.ancestorsUpTo_succ hdirectory,
    List.filterMap_cons_some (Path.fileName?_of_components hinner),
    List.filterMap_cons_some (Path.fileName?_of_components hdirectoryComponents)]

/-- The name of a file that belongs to a package ends as the names of ebuilds do. -/
theorem exists_fileName_of_packageOfPath {path : Path} {package : PackageVersion}
    (h : packageOfPath path = .ok package) :
    ∃ stem, path.fileName? = some (stem ++ ebuildEnding) := by
  unfold packageOfPath at h
  dsimp only at h
  split at h
  · cases h
  next fileName hfile =>
  split at h
  · cases h
  next stem hstem =>
  exact ⟨stem, by rw [hfile, Text.append_of_dropEnd hstem]⟩

/-- A path belongs to a package when its name spells the directory that it lies in and the version
of the package. -/
theorem packageOfPath_eq_ok_iff {path : Path} {fileName category shortName : String}
    {rest : List String} {package : PackageVersion} (hfile : path.fileName? = some fileName)
    (hdirectories : directoryNames path = shortName :: category :: rest) :
    packageOfPath path = .ok package ↔
      fileName = shortName ++ "-" ++ package.version.text ++ ebuildEnding ∧
        package.name = category ++ "/" ++ shortName := by
  constructor
  · intro h
    simp only [packageOfPath, hfile, hdirectories] at h
    split at h
    · cases h
    next stem hstem =>
    split at h
    · cases h
    next start version hsplit =>
    split at h
    · cases h
    next name hname =>
    split at h
    · next hsame =>
      cases h
      rw [← Text.append_of_dropEnd hname, hsame] at hsplit
      rw [← Text.append_of_dropEnd hstem, Version.splitTrailing_eq_ok_iff.1 hsplit]
      exact ⟨rfl, rfl⟩
    · cases h
  · rintro ⟨rfl, hname⟩
    obtain ⟨name, version⟩ := package
    obtain rfl : name = category ++ "/" ++ shortName := hname
    simp only [packageOfPath, hfile, hdirectories, Text.dropEnd?_append,
      Version.splitTrailing_eq_ok_iff.2 rfl, if_true]

/-- In the directory of a package a file belongs to a package when it is named as an ebuild of the
one whose directory it is. -/
theorem packageOfPath_child_eq_ok_iff {name category shortName fileName : String}
    {package : PackageVersion} (h : NameParts name category shortName) (root : Path)
    (hplain : '/' ∉ fileName.toList) :
    packageOfPath ((root.child name).child fileName) = .ok package ↔
      fileName = Repository.ebuildName name package.version ∧ package.name = name := by
  have hdirectory := h.components_child root
  have hpath (hlast : ((root.child name).child fileName).components =
      (root.child name).components ++ [.normal fileName]) :
      packageOfPath ((root.child name).child fileName) = .ok package ↔
        fileName = Repository.ebuildName name package.version ∧ package.name = name := by
    have hcomponents : ((root.child name).child fileName).components =
        root.components ++ [.normal category, .normal shortName, .normal fileName] := by
      simp [hlast, hdirectory]
    obtain ⟨rest, hrest⟩ := directoryNames_of_components hcomponents
    rw [packageOfPath_eq_ok_iff (Path.fileName?_of_components hlast) hrest, ebuildName_eq h,
      ← h.name_eq]
  constructor
  · intro hpackage
    obtain ⟨stem, hstem⟩ := exists_fileName_of_packageOfPath hpackage
    rcases Path.fileName?_child (by simp [hdirectory]) hplain hstem with hparent | ⟨-, hlast⟩
    · -- The path is that of the directory, and no package is named as ebuilds are.
      have hparts : (root.child name).components =
          (root.components ++ [.normal category]) ++ [.normal shortName] := by
        simp [hdirectory]
      rw [Path.fileName?_of_components hparts, Option.some.injEq] at hparent
      refine absurd ?_ h.dot_not_mem
      rw [hparent, String.toList_append]
      exact List.mem_append_right _ (by decide)
    · exact (hpath hlast).1 hpackage
  · intro hspelled
    refine (hpath ?_).2 hspelled
    rw [hspelled.1, components_ebuild h, hdirectory]
    simp

end Ebuild

/-! ## Agreement -/

namespace Repository

variable {tree : FileTree} {r : Repository} {name fileName : String} {contents : Contents}
  {entries : List (String × Node)}

/-- A file in the directory of a package is listed with the version that its name spells. -/
theorem mem_ebuilds_child_iff {category shortName : String} {files : List EbuildFile}
    (h : NameParts name category shortName)
    (hentries : tree.listDirectory (r.root.child name) = .ok entries)
    (hfile : (fileName, .file contents) ∈ entries) (hplain : '/' ∉ fileName.toList)
    (hfiles : r.ebuilds tree name = .ok files) (v : Version) :
    ⟨(r.root.child name).child fileName, v⟩ ∈ files ↔ fileName = ebuildName name v := by
  constructor
  · intro hmem
    obtain ⟨_, _, hpath, _⟩ := mem_ebuilds hfiles hmem
    exact Path.child_injective (Path.isAbsolute_eq_false_of_not_mem hplain)
      (Path.isAbsolute_eq_false_of_not_mem (slash_not_mem_ebuildName h v)) hpath
  · intro hspelled
    rw [ebuilds_of_listDirectory hentries] at hfiles
    obtain rfl := Except.ok.inj hfiles
    refine List.mem_mergeSort.2 (List.mem_filterMap.2 ⟨_, hfile, ?_⟩)
    have hversion : versionOfFileName? (Text.afterLast '/' name) fileName = some v :=
      versionOfFileName?_eq_some_iff.2 hspelled
    rw [ebuildNamed?, hversion]
    rfl

/-- A file in the directory of a package is listed exactly when its path belongs to a package.
That is then the package whose ebuilds are listed, in the version that the file is listed with. -/
theorem listed_iff_extracted (hname : checkQualified name = .ok ())
    (hentries : tree.listDirectory (r.root.child name) = .ok entries)
    (hfile : (fileName, .file contents) ∈ entries) (hplain : '/' ∉ fileName.toList) :
    ∃ files, r.ebuilds tree name = .ok files ∧
      ((∃ f ∈ files, f.path = (r.root.child name).child fileName) ↔
        ∃ package, Ebuild.packageOfPath ((r.root.child name).child fileName) = .ok package) ∧
      ∀ f ∈ files, f.path = (r.root.child name).child fileName → ∀ package,
        Ebuild.packageOfPath ((r.root.child name).child fileName) = .ok package →
          f.version = package.version ∧ package.name = name := by
  obtain ⟨category, shortName, hparts⟩ := checkQualified_eq_ok hname
  obtain ⟨files, hfiles⟩ : ∃ files, r.ebuilds tree name = .ok files :=
    ⟨_, ebuilds_of_listDirectory hentries⟩
  have hlisted := mem_ebuilds_child_iff hparts hentries hfile hplain hfiles
  -- Listed as some version and belonging to a package in that version is the same.
  have hextracted (v : Version) : ⟨(r.root.child name).child fileName, v⟩ ∈ files ↔
      Ebuild.packageOfPath ((r.root.child name).child fileName) = .ok ⟨name, v⟩ := by
    rw [hlisted v, Ebuild.packageOfPath_child_eq_ok_iff hparts r.root hplain, and_iff_left rfl]
  refine ⟨files, hfiles, ⟨?_, ?_⟩, ?_⟩
  · rintro ⟨⟨_, v⟩, hmem, rfl⟩
    exact ⟨_, (hextracted v).1 hmem⟩
  · rintro ⟨package, hpackage⟩
    obtain ⟨hspelled, -⟩ :=
      (Ebuild.packageOfPath_child_eq_ok_iff hparts r.root hplain).1 hpackage
    exact ⟨_, (hlisted package.version).2 hspelled, rfl⟩
  · rintro ⟨_, v⟩ hmem rfl package hpackage
    obtain rfl := Except.ok.inj (hpackage.symm.trans ((hextracted v).1 hmem))
    exact ⟨rfl, rfl⟩

/-- A directory of a package whose name ends as revisions do, with an ebuild and another file. -/
def revisionLikeEntries : List (String × Node) :=
  [("foo-r2-1.0_p1-r3.ebuild", .file (.text "")), ("foo-r2.ebuild", .file (.text ""))]

/-- The tree with that directory. -/
def revisionLikeTree : FileTree where
  root := .directory
    [("r", .directory [("x", .directory [("foo-r2", .directory revisionLikeEntries)])])]
  workingDirectory := ⟨"/"⟩

/-- The repository with that directory. -/
def revisionLikeRepository : Repository := ⟨⟨"/r"⟩, "r", "0"⟩

/-- The name of the ebuild is split behind that of the package, and the other file is no ebuild for
either. -/
theorem listed_iff_extracted_revisionLike :
    (∃ files, revisionLikeRepository.ebuilds revisionLikeTree "x/foo-r2" = .ok files ∧
      ∃ f ∈ files, f.path = ⟨"/r/x/foo-r2/foo-r2-1.0_p1-r3.ebuild"⟩ ∧
        f.version.text = "1.0_p1-r3") ∧
    ∃ files, revisionLikeRepository.ebuilds revisionLikeTree "x/foo-r2" = .ok files ∧
      ∀ f ∈ files, f.path ≠ ⟨"/r/x/foo-r2/foo-r2.ebuild"⟩ := by
  have hname : checkQualified "x/foo-r2" = .ok () := by decide +kernel
  have hentries : revisionLikeTree.listDirectory (revisionLikeRepository.root.child "x/foo-r2") =
      .ok revisionLikeEntries := rfl
  constructor
  · have hextracted : (Ebuild.packageOfPath ⟨"/r/x/foo-r2/foo-r2-1.0_p1-r3.ebuild"⟩).toOption.map
        (fun package => package.version.text) = some "1.0_p1-r3" := by decide +kernel
    obtain ⟨package, hpackage, hversion⟩ := Option.map_eq_some_iff.1 hextracted
    have haccepted := toOption_eq_some_iff.1 hpackage
    obtain ⟨files, hfiles, hlisted, hsame⟩ := listed_iff_extracted hname hentries
      (List.mem_cons_self : ("foo-r2-1.0_p1-r3.ebuild", _) ∈ revisionLikeEntries) (by decide)
    obtain ⟨f, hf, hpath⟩ := hlisted.2 ⟨package, haccepted⟩
    exact ⟨files, hfiles, f, hf, hpath, by rw [(hsame f hf hpath package haccepted).1, hversion]⟩
  · have hrefused : (Ebuild.packageOfPath ⟨"/r/x/foo-r2/foo-r2.ebuild"⟩).toOption = none := by
      decide +kernel
    obtain ⟨files, hfiles, hlisted, -⟩ := listed_iff_extracted hname hentries
      (List.mem_cons_of_mem _ List.mem_cons_self : ("foo-r2.ebuild", _) ∈ revisionLikeEntries)
      (by decide)
    refine ⟨files, hfiles, fun f hf hpath => ?_⟩
    obtain ⟨package, hpackage⟩ := hlisted.1 ⟨f, hf, hpath⟩
    exact Option.some_ne_none package ((toOption_eq_some_iff.2 hpackage).symm.trans hrefused)

end Repository
end EbuildGraph
