import EbuildGraph.Proofs.Atom.Name
import EbuildGraph.Proofs.FileTree
import EbuildGraph.Proofs.Version.Order
import EbuildGraph.Proofs.Version.Text
import EbuildGraph.Repository.Basic

/-!
# Ebuilds of a package

The ebuilds of a package lie in its directory, below that of its category, and their names
spell the package and the version.

Main results:

- Theorem {lit}`RepositorySet.mem_ebuilds`: the directory and the name of an ebuild.
- Theorem {lit}`components_ebuild`: the components of the path of an ebuild.
-/

namespace EbuildGraph
namespace Repository

/-- The name of an ebuild file spells the package and the version. -/
theorem fileName_of_version {shortName fileName : String} {v : Version}
    (h : versionOfFileName? shortName fileName = some v) :
    fileName = shortName ++ "-" ++ v.text ++ ebuildEnding ∧ Version.parse v.text = .ok v := by
  obtain ⟨s, hs, hv⟩ := Option.bind_eq_some_iff.1 h
  obtain ⟨rest, hrest, hend⟩ := Option.bind_eq_some_iff.1 hs
  have hparse := toOption_eq_some_iff.1 hv
  rw [← Text.append_of_dropStart hrest, ← Text.append_of_dropEnd hend,
    Version.text_of_parse hparse]
  exact ⟨by simp only [String.append_assoc], hparse⟩

/-- The name of the file with an ebuild. -/
def ebuildName (name : String) (v : Version) : String :=
  Text.afterLast '/' name ++ "-" ++ v.text ++ ebuildEnding

/-- An ebuild is an entry of the directory of its package. -/
theorem mem_ebuilds {tree : FileTree} {r : Repository} {name : String} {files : List EbuildFile}
    {file : EbuildFile} (h : r.ebuilds tree name = .ok files) (hfile : file ∈ files) :
    ∃ entries, tree.listDirectory (r.root.child name) = .ok entries ∧
      file.path = (r.root.child name).child (ebuildName name file.version) ∧
      Version.parse file.version.text = .ok file.version := by
  unfold ebuilds at h
  dsimp only at h
  split at h
  · cases h
    exact absurd hfile List.not_mem_nil
  · cases h
  next entries hentries =>
  obtain rfl := Except.ok.inj h
  refine ⟨entries, hentries, ?_⟩
  obtain ⟨entry, _, hentry⟩ := List.mem_filterMap.1 (List.mem_mergeSort.1 hfile)
  unfold ebuildNamed? at hentry
  split at hentry
  · cases hentry
  obtain ⟨version, hversion, rfl⟩ := Option.map_eq_some_iff.1 hentry
  obtain ⟨hname, hparse⟩ := fileName_of_version hversion
  exact ⟨congrArg (r.root.child name).child hname, hparse⟩

/-! ## Order of the ebuilds -/

/-- Newer versions come first, and among equal versions the smaller path. -/
theorem comesBefore_iff {a b : EbuildFile} : comesBefore a b = true ↔
    b.version.compare a.version = .lt ∨
      b.version.compare a.version = .eq ∧ a.path.text ≤ b.path.text := by
  unfold comesBefore
  split <;> simp_all

/-- The order of the files is transitive, as sorting needs it. -/
theorem comesBefore_trans (a b c : EbuildFile) (hab : comesBefore a b = true)
    (hbc : comesBefore b c = true) : comesBefore a c = true := by
  rw [comesBefore_iff] at *
  rcases hab with hab | ⟨hab, hpath⟩ <;> rcases hbc with hbc | ⟨hbc, hpath'⟩
  · exact Or.inl (Std.TransCmp.lt_trans hbc hab)
  · exact Or.inl (Std.TransCmp.lt_of_eq_of_lt hbc hab)
  · exact Or.inl (Std.TransCmp.lt_of_lt_of_eq hbc hab)
  · exact Or.inr ⟨Std.TransCmp.eq_trans hbc hab, String.le_trans hpath hpath'⟩

/-- Any two files stand one before the other or are tied. -/
theorem comesBefore_total (a b : EbuildFile) : (comesBefore a b || comesBefore b a) = true := by
  have hswap : b.version.compare a.version = (a.version.compare b.version).swap :=
    Std.OrientedCmp.eq_swap
  rw [Bool.or_eq_true, comesBefore_iff, comesBefore_iff, hswap]
  cases a.version.compare b.version with
  | lt => simp
  | eq => simpa using String.le_total a.path.text b.path.text
  | gt => simp

/-- The ebuilds that the entries of a package's directory give. -/
theorem ebuilds_of_listDirectory {tree : FileTree} {r : Repository} {name : String}
    {entries : List (String × Node)} (h : tree.listDirectory (r.root.child name) = .ok entries) :
    r.ebuilds tree name = .ok ((entries.filterMap
      (ebuildNamed? (Text.afterLast '/' name) (r.root.child name))).mergeSort comesBefore) := by
  unfold ebuilds
  dsimp only
  rw [h]

/-- A repository without a directory for the package has no ebuild of it, which is no error. -/
theorem ebuilds_of_notFound {tree : FileTree} {r : Repository} {name : String}
    (h : tree.listDirectory (r.root.child name) = .error .notFound) :
    r.ebuilds tree name = .ok [] := by
  unfold ebuilds
  dsimp only
  rw [h]

/-- The ebuilds of a package are in the order in which they come before each other. -/
theorem pairwise_ebuilds {tree : FileTree} {r : Repository} {name : String}
    {files : List EbuildFile} (h : r.ebuilds tree name = .ok files) :
    files.Pairwise fun f g => comesBefore f g = true := by
  unfold ebuilds at h
  dsimp only at h
  split at h
  · cases h
    exact .nil
  · cases h
  · obtain rfl := Except.ok.inj h
    exact List.pairwise_mergeSort comesBefore_trans comesBefore_total _

/-- The ebuilds of a package cannot be listed when its directory cannot. -/
theorem exists_of_ebuilds_eq_error {tree : FileTree} {r : Repository} {name : String}
    {err : Error} (h : r.ebuilds tree name = .error err) :
    ∃ path fault, err = .file path fault := by
  unfold ebuilds at h
  dsimp only at h
  split at h
  · cases h
  · cases h
    exact ⟨_, _, rfl⟩
  · cases h

end Repository

/-- An ebuild of a package lies in one of the repositories. -/
theorem RepositorySet.mem_ebuilds {tree : FileTree} {s : RepositorySet} {name : String}
    {files : List EbuildFile} {file : EbuildFile} (h : s.ebuilds tree name = .ok files)
    (hfile : file ∈ files) :
    ∃ r ∈ s.repositories, ∃ entries, tree.listDirectory (r.root.child name) = .ok entries ∧
      file.path = (r.root.child name).child (Repository.ebuildName name file.version) ∧
      Version.parse file.version.text = .ok file.version := by
  obtain ⟨found, hfound, rfl⟩ := map_eq_ok_iff.1 h
  obtain ⟨files, hfiles, hin⟩ := List.mem_flatten.1 hfile
  obtain ⟨r, hr, hebuilds⟩ := exists_of_mem_mapM hfound hfiles
  exact ⟨r, hr, Repository.mem_ebuilds hebuilds hin⟩

/-- The ebuilds of a package cannot be listed when those of one repository cannot. -/
theorem RepositorySet.exists_of_ebuilds_eq_error {tree : FileTree} {s : RepositorySet}
    {name : String} {err : Error} (h : s.ebuilds tree name = .error err) :
    ∃ path fault, err = .file path fault := by
  obtain ⟨r, _, hr⟩ := exists_of_mapM_eq_error (map_eq_error_iff.1 h)
  exact Repository.exists_of_ebuilds_eq_error hr

/-- With its ending, the name of an ebuild file is no name of a package. -/
theorem ne_ebuildName {name category package : String} (h : NameParts name category package)
    (other : String) (v : Version) : package ≠ Repository.ebuildName other v := by
  intro heq
  have hdot : '.' ∈ package.toList := by
    rw [heq, Repository.ebuildName, String.toList_append]
    exact List.mem_append_right _ (by decide)
  exact h.dot_not_mem hdot

/-- The file name of a version is built from the package part of the name alone. -/
theorem ebuildName_eq {name category package : String} (h : NameParts name category package)
    (v : Version) : Repository.ebuildName name v = package ++ "-" ++ v.text ++ ebuildEnding := by
  have hlast : Text.afterLast '/' name = package := by
    rw [h.name_eq]
    exact Text.afterLast_append h.slash_not_mem.2
  rw [Repository.ebuildName, hlast]

/-- The name of an ebuild file is a name within a directory. -/
theorem slash_not_mem_ebuildName {name category package : String}
    (h : NameParts name category package) (v : Version) :
    '/' ∉ (Repository.ebuildName name v).toList := by
  rw [ebuildName_eq h]
  simp only [String.toList_append, List.mem_append]
  rintro (((hmem | hmem) | hmem) | hmem)
  · exact h.slash_not_mem.2 hmem
  · exact absurd hmem (by decide)
  · exact v.slash_not_mem_text hmem
  · exact absurd hmem (by decide)

/-- The path of an ebuild goes through its category and its package. -/
theorem components_ebuild {name category package : String} (h : NameParts name category package)
    (root : Path) (v : Version) :
    ((root.child name).child (Repository.ebuildName name v)).components =
      root.components ++
        [.normal category, .normal package, .normal (Repository.ebuildName name v)] := by
  have hname := ebuildName_eq h v
  have hslash := slash_not_mem_ebuildName h v
  have hhyphen : '-' ∈ (Repository.ebuildName name v).toList := by
    simp [hname]
  have hne : ∀ s : String, '-' ∉ s.toList → Repository.ebuildName name v ≠ s := by
    rintro s hs heq
    exact hs (heq ▸ hhyphen)
  have hempty := hne "" (by decide)
  have hdot := hne "." (by decide)
  have hdots := hne ".." (by decide)
  rw [Path.components_child (Text.fields_of_not_mem hslash) hempty hdot, h.components_child]
  simp [Path.body, Path.flagged, Path.Component.ofPiece, hempty, hdot, hdots]

/-! ## Names of packages -/

namespace Repository

/-- A directory that was reached on a way holds the name that the way goes on with. -/
theorem mem_namesIn {tree : FileTree} {dir : Path} {reached : FileTree.Trail}
    {entries : List (String × Node)} {name : String} (htext : FileTree.IsPathText dir.text)
    (hwalk : FileTree.walk tree .existing FileTree.maxLinks [] (tree.namesFromRoot dir) =
      .ok reached)
    (hnode : tree.nodeAt reached = .directory entries) (hname : name ∈ entries.map Prod.fst) :
    name ∈ namesIn tree dir := by
  have hfind : tree.find dir = .ok (.directory entries) :=
    FileTree.find_eq_ok_iff.2 ⟨htext, reached, hwalk, hnode⟩
  rw [namesIn, FileTree.listDirectory_eq_ok_iff.2 hfind]
  exact hname

/-- A package whose directory can be listed is among the packages of the repository. -/
theorem mem_packageNames {tree : FileTree} {r : Repository} {name category package : String}
    {entries : List (String × Node)} (hname : NameParts name category package)
    (h : tree.listDirectory (r.root.child name) = .ok entries) :
    name ∈ r.packageNames tree := by
  obtain ⟨before, base, hchild⟩ := tree.exists_child_names r.root
  have hcategory := ne_of_isNameOf hname.category
  have hpackage := ne_of_isNameOf hname.package
  have hfields : Text.fields '/' category = [category] :=
    Text.fields_of_not_mem hname.slash_not_mem.1
  have hzero : Char.ofNat 0 ∉ category.toList :=
    not_mem_of_isNameOf hname.category (by decide) (by decide)
  have hsize : name.utf8ByteSize =
      category.utf8ByteSize + ".".utf8ByteSize + package.utf8ByteSize := by
    rw [hname.name_eq, String.utf8ByteSize_append, String.utf8ByteSize_append]
    rfl
  obtain ⟨htext, hnames⟩ :=
    hchild name (Path.isAbsolute_eq_false_of_fields hname.fields hcategory.1)
  obtain ⟨htextCategory, hnamesCategory⟩ :=
    hchild category (Path.isAbsolute_eq_false_of_fields hfields hcategory.1)
  obtain ⟨htextHere, hnamesHere⟩ := hchild "." rfl
  obtain ⟨hpath, found, hwalk, _⟩ :=
    FileTree.find_eq_ok_iff.1 (FileTree.listDirectory_eq_ok_iff.1 h)
  rw [htext] at hpath
  rw [hnames, hname.fields] at hwalk
  have hcategoryMem : category ∈ namesIn tree (r.root.child ".") := by
    obtain ⟨root, categories, _, hroot, hcategories, hmem⟩ :=
      FileTree.exists_entry_of_walk hcategory hwalk
    refine mem_namesIn ?_ (hnamesHere ▸ hroot) hcategories hmem
    rw [htextHere]
    exact hpath.replace_end (by decide) (by decide) (by omega)
  have hpackageMem : package ∈ namesIn tree (r.root.child category) := by
    rw [List.append_cons] at hwalk
    obtain ⟨reached, packages, hreached, _, hpackages, hmem⟩ :=
      FileTree.exists_entry_of_walk hpackage hwalk
    refine mem_namesIn ?_ (hnamesCategory ▸ hfields ▸ hreached) hpackages hmem
    rw [htextCategory]
    exact hpath.replace_end hcategory.1 hzero (by omega)
  refine List.mem_flatMap.2 ⟨category, hcategoryMem, ?_⟩
  exact List.mem_map.2 ⟨package, hpackageMem, hname.name_eq.symm⟩

end Repository
end EbuildGraph
