import EbuildGraph.Proofs.Ebuild
import EbuildGraph.Proofs.FileTree.Arrangement
import EbuildGraph.Proofs.Repository.Ebuilds
import EbuildGraph.Proofs.Resolver.Selection

/-!
# Candidates and the order of entries

The order in which directories report their entries does not show in the ebuilds of a package or
in the candidates for an atom.  The ebuilds of a repository are sorted by version and then by
path, and no two of them have one path, so there is one order that they can have.

Main definition:

- {lit}`EbuildFile.Precedes`: whether an ebuild is newer than another, or as new with the lesser
  path.

Main results:

- Theorem {lit}`Ebuild.read_of_readsAlike`: what is read of an ebuild comes from files alone.
- Theorem {lit}`Repository.ebuilds_of_rearranges`: the ebuilds of a package are the same whatever
  the order of entries.
- Theorem {lit}`Repository.pairwise_precedes_ebuilds`: the order of the ebuilds of a repository.
- Theorem {lit}`Resolver.candidates_ignore_arrangement`: ebuilds and candidates in two trees that
  differ in the order of entries alone.
-/

namespace EbuildGraph

variable {tree other : FileTree}

/-! ## What is read from files -/

namespace Script

/-- Running a script reads files only. -/
theorem runFile_of_readsAlike (h : tree.ReadsAlike other) (dialect : Dialect) (depth : Nat) :
    runFile tree dialect depth = runFile other dialect depth := by
  induction depth with
  | zero =>
    funext path s
    rw [runFile, runFile, runFileWith, runFileWith, h.readText]
  | succ depth ih =>
    funext path s
    rw [runFile, runFile, runFileWith, runFileWith, h.readText, ih]

/-- A script runs alike wherever the files that it may include read alike. -/
theorem run_of_readsAlike (h : tree.ReadsAlike other) (dialect : Dialect) (path : Path)
    (env : Variables) : run tree dialect path env = run other dialect path env := by
  rw [run, run, runFile_of_readsAlike h]

end Script

namespace Configuration

/-- The settings of a user depend on what the files hold and not on how their directory lists them.
-/
theorem UserSettings.runFiles_of_readsAlike (h : tree.ReadsAlike other) (paths : List Path) :
    runFiles tree paths = runFiles other paths := by
  induction paths with
  | nil => rfl
  | cons path rest ih =>
    funext env
    rw [runFiles, runFiles, h.pathExists, Script.run_of_readsAlike h, ih]

/-- Trees that read alike are read alike by every source of settings. -/
theorem Source.readAlike_of_readsAlike (h : tree.ReadsAlike other) (us : List UserSettings) :
    ReadAlike tree other us := by
  intro u _ env
  rw [UserSettings.globalTables, UserSettings.globalTables, UserSettings.runFiles_of_readsAlike h]

end Configuration

namespace Ebuild

open EbuildGraph.Configuration

/-- The metadata of an ebuild depends on what the files hold and not on how their directory lists
them. -/
theorem readMetadata_of_readsAlike (h : tree.ReadsAlike other) (env : Variables) (path : Path)
    (package : PackageVersion) :
    readMetadata tree env path package = readMetadata other env path package := by
  have hfile : tree.isFile = other.isFile := funext h.isFile
  unfold readMetadata readCached runEbuild
  simp only [hfile, h.readText, Script.run_of_readsAlike h]

/-- What is read of an ebuild comes from files alone. -/
theorem read_of_readsAlike (h : tree.ReadsAlike other) (config : Source) (path : Path) :
    read tree config path = read other config path := by
  have hconfig := Source.readAlike_of_readsAlike h config.users
  unfold read evaluate
  simp only [Source.globalTables_congr config hconfig, Source.useFlags_congr hconfig,
    readMetadata_of_readsAlike h]

end Ebuild

/-! ## Ebuilds of a repository -/

/-- Whether the first ebuild is newer than the second, or as new with the lesser path. -/
def EbuildFile.Precedes (f g : EbuildFile) : Prop :=
  g.version.compare f.version = .lt ∨
    g.version.compare f.version = .eq ∧ f.path.text < g.path.text

namespace Repository

variable {r : Repository} {name : String} {dir : Path} {f g : EbuildFile}

/-- An entry is an ebuild by its name and by what kind of node it is. -/
theorem ebuildNamed?_eq_some_iff {shortName : String} {entry : String × Node} :
    ebuildNamed? shortName dir entry = some f ↔ entry.2.isDirectory = false ∧
      versionOfFileName? shortName entry.1 = some f.version ∧ f.path = dir.child entry.1 := by
  obtain ⟨path, version⟩ := f
  unfold ebuildNamed?
  cases entry.2.isDirectory <;> simp [eq_comm]

theorem isAbsolute_fileName {fileName : String} {v : Version}
    (h : versionOfFileName? (Text.afterLast '/' name) fileName = some v) :
    (⟨fileName⟩ : Path).isAbsolute = false := by
  apply Path.isAbsolute_eq_false_of_not_mem
  rw [(fileName_of_version h).1]
  simp only [String.toList_append, List.mem_append]
  rintro (((hmem | hmem) | hmem) | hmem)
  · exact Text.not_mem_afterLast '/' name hmem
  · exact absurd hmem (by decide)
  · exact v.slash_not_mem_text hmem
  · exact absurd hmem (by decide)

/-- The path of an ebuild tells the entry and the version. -/
theorem eq_of_path_text {entry entry' : String × Node}
    (hf : ebuildNamed? (Text.afterLast '/' name) dir entry = some f)
    (hg : ebuildNamed? (Text.afterLast '/' name) dir entry' = some g)
    (h : f.path.text = g.path.text) : entry.1 = entry'.1 ∧ f = g := by
  obtain ⟨-, hversion, hpath⟩ := ebuildNamed?_eq_some_iff.1 hf
  obtain ⟨-, hversion', hpath'⟩ := ebuildNamed?_eq_some_iff.1 hg
  have hsame := Path.eq_of_text h
  have hname : entry.1 = entry'.1 := by
    refine Path.child_injective (isAbsolute_fileName hversion) (isAbsolute_fileName hversion')
      (p := dir) ?_
    rw [← hpath, ← hpath', hsame]
  refine ⟨hname, ?_⟩
  obtain ⟨path, version⟩ := f
  obtain ⟨path', version'⟩ := g
  rw [hname, hversion'] at hversion
  obtain rfl := Option.some.inj hversion
  obtain rfl : path = path' := hsame
  rfl

/-- Two files that tie in the order have one path. -/
theorem path_text_of_comesBefore (hfg : comesBefore f g = true) (hgf : comesBefore g f = true) :
    f.path.text = g.path.text := by
  have hswap : g.version.compare f.version = (f.version.compare g.version).swap :=
    Std.OrientedCmp.eq_swap
  rw [comesBefore_iff] at hfg hgf
  rcases hfg with hlt | ⟨heq, hle⟩ <;> rcases hgf with hlt' | ⟨heq', hle'⟩
  · simp [hlt, hlt'] at hswap
  · simp [hlt, heq'] at hswap
  · simp [heq, hlt'] at hswap
  · exact String.le_antisymm hle hle'

/-- Without a directory there are no ebuilds. -/
theorem eq_nil_of_listDirectory_eq_error {files : List EbuildFile} {fault : FileFault}
    (h : tree.listDirectory (r.root.child name) = .error fault)
    (hfiles : r.ebuilds tree name = .ok files) : files = [] := by
  simp only [ebuilds, h] at hfiles
  cases fault <;> cases hfiles
  rfl

/-- The ebuilds of a package do not depend on the order of entries. -/
theorem ebuilds_of_rearranges (h : tree.Rearranges other) (r : Repository) (name : String) :
    r.ebuilds tree name = r.ebuilds other name := by
  obtain ⟨fault, hlisted, hlisted'⟩ | ⟨entries, entries', hlisted, hlisted', hentries⟩ :=
    (h.listDirectory (r.root.child name)).cases
  · simp only [ebuilds, hlisted, hlisted']
  rw [ebuilds_of_listDirectory hlisted, ebuilds_of_listDirectory hlisted']
  have hkind : ∀ fileName node node', node.Rearranges node' →
      ebuildNamed? (Text.afterLast '/' name) (r.root.child name) (fileName, node) =
        ebuildNamed? (Text.afterLast '/' name) (r.root.child name) (fileName, node') := by
    intro fileName node node' hnode
    rw [ebuildNamed?, ebuildNamed?, hnode.isDirectory_eq]
  have hperm := ((List.mergeSort_perm _ comesBefore).trans
    (hentries.perm_filterMap hkind)).trans (List.mergeSort_perm _ comesBefore).symm
  refine congrArg Except.ok (hperm.eq_of_pairwise ?_
    (List.pairwise_mergeSort comesBefore_trans comesBefore_total _)
    (List.pairwise_mergeSort comesBefore_trans comesBefore_total _))
  intro f g hf hg hfg hgf
  obtain ⟨entry, -, hentry⟩ := List.mem_filterMap.1 (List.mem_mergeSort.1 hf)
  obtain ⟨entry', -, hentry'⟩ := List.mem_filterMap.1 (List.mem_mergeSort.1 hg)
  exact (eq_of_path_text hentry hentry' (path_text_of_comesBefore hfg hgf)).2

/-- Ebuilds of a directory without repeated names are sorted by version and then by path. -/
theorem pairwise_precedes_ebuilds (h : tree.Rearranges other) {files : List EbuildFile}
    (hfiles : r.ebuilds tree name = .ok files) : files.Pairwise EbuildFile.Precedes := by
  have hpaths : files.Pairwise fun f g => f.path.text ≠ g.path.text := by
    obtain ⟨fault, hlisted, -⟩ | ⟨entries, entries', hlisted, -, hentries⟩ :=
      (h.listDirectory (r.root.child name)).cases
    · rw [eq_nil_of_listDirectory_eq_error hlisted hfiles]
      exact .nil
    obtain rfl := Except.ok.inj ((ebuilds_of_listDirectory hlisted).symm.trans hfiles)
    rw [(List.mergeSort_perm _ comesBefore).pairwise_iff fun hne => hne.symm,
      List.pairwise_filterMap]
    refine (List.pairwise_map.1 hentries.nodup_names.1).imp fun hne f hf g hg hsame => hne ?_
    exact (eq_of_path_text hf hg hsame).1
  refine ((pairwise_ebuilds hfiles).and hpaths).imp fun {f g} hfg => ?_
  obtain ⟨hbefore, hne⟩ := hfg
  rcases comesBefore_iff.1 hbefore with hlt | ⟨heq, hle⟩
  · exact Or.inl hlt
  · exact Or.inr ⟨heq, String.not_le.1 fun hge => hne (String.le_antisymm hle hge)⟩

end Repository

/-- The ebuilds of a package from all repositories do not depend on the order of entries. -/
theorem RepositorySet.ebuilds_of_rearranges (h : tree.Rearranges other) (s : RepositorySet)
    (name : String) : s.ebuilds tree name = s.ebuilds other name := by
  unfold ebuilds
  simp only [Repository.ebuilds_of_rearranges h]

/-! ## Candidates -/

/-- The ebuild of a package. -/
def Package.ebuildFile (p : Package) : EbuildFile :=
  ⟨p.path, p.version⟩

namespace Resolver

variable {r : Resolver} {a : Atom}

/-- The candidates for an atom do not depend on the order of entries. -/
theorem candidates_of_rearranges (h : r.tree.Rearranges other) (a : Atom) :
    r.candidates a = ({ r with tree := other } : Resolver).candidates a := by
  have hpackage : r.package? a.name = ({ r with tree := other } : Resolver).package? a.name := by
    funext file
    unfold package?
    rw [Ebuild.read_of_readsAlike h.readsAlike]
  unfold candidates
  rw [RepositorySet.ebuilds_of_rearranges h, hpackage]
  rfl

/-- The packages of ebuilds are in the order of the ebuilds. -/
theorem sublist_packagesOf (r : Resolver) (name : String) (files : List EbuildFile) :
    ((r.packagesOf name files).map Package.ebuildFile).Sublist files := by
  unfold packagesOf
  induction files with
  | nil => exact .slnil
  | cons file rest ih =>
    cases hfile : r.package? name file with
    | none =>
      rw [List.filterMap_cons_none hfile]
      exact ih.cons file
    | some p =>
      obtain ⟨hpath, -, hversion, -⟩ := package?_eq_some hfile
      have hself : p.ebuildFile = file := by
        rw [Package.ebuildFile, hpath, hversion]
      rw [List.filterMap_cons_some hfile, List.map_cons, hself]
      exact ih.cons_cons file

/-- Packages are compared as their files are. -/
theorem isNewer_of_precedes {p q : Package} (h : p.ebuildFile.Precedes q.ebuildFile) :
    isNewer p q = true := by
  have hcompare : q.version.compare p.version = .lt ∨ q.version.compare p.version = .eq :=
    h.imp id And.left
  rw [isNewer_eq_true_iff]
  rcases hcompare with hlt | heq
  · rw [hlt]
    rfl
  · rw [heq]
    rfl

/-- The candidates are those of each repository in turn, sorted stably, so each repository's
stay in the order of its ebuilds. -/
theorem exists_lists_of_candidates (h : r.tree.Rearranges other) {packages : List Package}
    (hpackages : r.candidates a = .ok packages) :
    ∃ lists : List (List Package), lists.flatten.Perm packages ∧
      List.Forall₂ (fun repository own => ∃ files, repository.ebuilds r.tree a.name = .ok files ∧
        (own.map Package.ebuildFile).Sublist files) r.repositories.repositories lists ∧
      ∀ own ∈ lists, own.Sublist packages ∧
        (own.map Package.ebuildFile).Pairwise EbuildFile.Precedes := by
  obtain ⟨files, hfiles, rfl⟩ := candidates_eq_ok hpackages
  obtain ⟨found, hfound, rfl⟩ := map_eq_ok_iff.1 hfiles
  let eligible (files : List EbuildFile) : List Package :=
    (r.packagesOf a.name files).filter (r.isEligible a)
  have hown : ∀ files, ((eligible files).map Package.ebuildFile).Sublist files := fun files =>
    (List.filter_sublist.map _).trans (r.sublist_packagesOf a.name files)
  have hflatten : eligible found.flatten = (found.map eligible).flatten := by
    simp only [eligible, packagesOf, List.filterMap_flatten, List.filter_flatten, List.map_map]
    rfl
  refine ⟨found.map eligible, ?_, ?_, ?_⟩
  · rw [← hflatten]
    exact (List.mergeSort_perm _ _).symm
  · rw [List.forall₂_map_right_iff]
    exact (mapM_eq_ok_iff.1 hfound).imp fun repository files hebuilds =>
      ⟨files, hebuilds, hown files⟩
  · intro own hmem
    obtain ⟨files, hin, rfl⟩ := List.mem_map.1 hmem
    obtain ⟨repository, -, hebuilds⟩ := exists_of_mem_mapM hfound hin
    have hprecedes := (Repository.pairwise_precedes_ebuilds h hebuilds).sublist (hown files)
    have hnewer : (eligible files).Pairwise fun p q => isNewer p q = true :=
      (List.pairwise_map.1 hprecedes).imp isNewer_of_precedes
    refine ⟨List.sublist_mergeSort isNewer_trans isNewer_total hnewer ?_, hprecedes⟩
    change (eligible files).Sublist (eligible found.flatten)
    rw [hflatten]
    exact List.sublist_flatten_of_mem hmem

/-- Trees that differ in the order of entries alone have the same ebuilds of every package, for
every list of repositories, and the same candidates for every atom.  The ebuilds of a repository are
sorted by version, those of equal versions by path, and its packages stay in this order among the
candidates, which are sorted by version. -/
theorem candidates_ignore_arrangement (r : Resolver) (other : FileTree)
    (h : r.tree.Rearranges other) :
    (∀ (s : RepositorySet) (name : String), s.ebuilds r.tree name = s.ebuilds other name) ∧
    (∀ a, r.candidates a = ({ r with tree := other } : Resolver).candidates a) ∧
    (∀ (s : RepositorySet) (name : String) (files : List EbuildFile),
      s.ebuilds r.tree name = .ok files → ∃ lists : List (List EbuildFile), files = lists.flatten ∧
        List.Forall₂ (fun repository own => repository.ebuilds r.tree name = .ok own ∧
          own.Pairwise EbuildFile.Precedes) s.repositories lists) ∧
    ∀ (a : Atom) (packages : List Package), r.candidates a = .ok packages →
      packages.Pairwise (fun p q => (q.version.compare p.version).isLE = true) ∧
      ∃ lists : List (List Package), lists.flatten.Perm packages ∧
        List.Forall₂ (fun repository own => ∃ files, repository.ebuilds r.tree a.name = .ok files ∧
          (own.map Package.ebuildFile).Sublist files) r.repositories.repositories lists ∧
        ∀ own ∈ lists, own.Sublist packages ∧
          (own.map Package.ebuildFile).Pairwise EbuildFile.Precedes := by
  refine ⟨RepositorySet.ebuilds_of_rearranges h, candidates_of_rearranges h, ?_, ?_⟩
  · intro s name files hfiles
    obtain ⟨lists, hlists, rfl⟩ := map_eq_ok_iff.1 hfiles
    exact ⟨lists, rfl, (mapM_eq_ok_iff.1 hlists).imp fun repository own hown =>
      ⟨hown, Repository.pairwise_precedes_ebuilds h hown⟩⟩
  · intro a packages hpackages
    refine ⟨?_, exists_lists_of_candidates h hpackages⟩
    obtain ⟨files, -, rfl⟩ := candidates_eq_ok hpackages
    exact (List.pairwise_mergeSort isNewer_trans isNewer_total _).imp isNewer_eq_true_iff.1

/-- A tree with the ebuilds of {lit}`app/a` as its directory reports them. -/
def reportedTree (files : List String) : FileTree where
  root := .directory [("app", .directory [("a", .directory
    (files.map fun file => (file, .file (.text ""))))])]
  workingDirectory := ⟨"/"⟩

/-- Three ebuilds of two versions. -/
def reportedFiles : List String := ["a-1.ebuild", "a-2.ebuild", "a-1-r0.ebuild"]

def reportedResolver : Resolver where
  tree := reportedTree reportedFiles
  repositories := ⟨[⟨⟨"/"⟩, "main", "7"⟩]⟩
  config := .fixed "" []
  settings := { overrides := .none }

theorem reportedTree_rearranges :
    reportedResolver.tree.Rearranges (reportedTree reportedFiles.reverse) := by
  have hfiles : Node.Rearranges
      (.directory (reportedFiles.map fun file => (file, .file (.text ""))))
      (.directory (reportedFiles.reverse.map fun file => (file, .file (.text "")))) := by
    refine Node.rearranges_of_perm (by decide) ((List.reverse_perm _).symm.map _) ?_
    intro entry hentry
    obtain ⟨file, -, rfl⟩ := List.mem_map.1 hentry
    exact .file _
  refine ⟨Node.rearranges_of_forall₂ (by simp) (.cons ⟨rfl, ?_⟩ .nil), rfl⟩
  exact Node.rearranges_of_forall₂ (by simp) (.cons ⟨rfl, hfiles⟩ .nil)

/-- The ebuilds in the order they have whatever is reported. -/
theorem ebuilds_reportedTree : ∃ files,
    reportedResolver.repositories.ebuilds reportedResolver.tree "app/a" = .ok files ∧
      files.map EbuildFile.path =
        [⟨"/app/a/a-2.ebuild"⟩, ⟨"/app/a/a-1-r0.ebuild"⟩, ⟨"/app/a/a-1.ebuild"⟩] := by
  have hlisted : reportedResolver.tree.listDirectory ((⟨"/"⟩ : Path).child "app/a") =
      .ok (reportedFiles.map fun file => (file, .file (.text ""))) := rfl
  have hebuilds : Repository.ebuilds reportedResolver.tree ⟨⟨"/"⟩, "main", "7"⟩ "app/a" = _ :=
    Repository.ebuilds_of_listDirectory hlisted
  rw [mergeSort_eq_insertionSort Repository.comesBefore_trans Repository.comesBefore_total]
    at hebuilds
  refine ⟨_, map_eq_ok_iff.2 ⟨_, mapM_eq_ok_iff.2 (.cons hebuilds .nil), rfl⟩, ?_⟩
  decide +kernel

/-- Reported in the other order, the ebuilds and the candidates are the same. -/
theorem candidates_ignore_reportedOrder :
    reportedResolver.tree.Rearranges (reportedTree reportedFiles.reverse) ∧
      (∃ files, reportedResolver.repositories.ebuilds (reportedTree reportedFiles.reverse) "app/a" =
        .ok files ∧ files.map EbuildFile.path =
          [⟨"/app/a/a-2.ebuild"⟩, ⟨"/app/a/a-1-r0.ebuild"⟩, ⟨"/app/a/a-1.ebuild"⟩]) ∧
      reportedResolver.candidates (.ofName "app/a") =
        ({ reportedResolver with tree := reportedTree reportedFiles.reverse } :
          Resolver).candidates (.ofName "app/a") := by
  obtain ⟨hebuilds, hcandidates, -⟩ :=
    candidates_ignore_arrangement reportedResolver _ reportedTree_rearranges
  obtain ⟨files, hfiles, hpaths⟩ := ebuilds_reportedTree
  exact ⟨reportedTree_rearranges, ⟨files, (hebuilds _ _).symm.trans hfiles, hpaths⟩,
    hcandidates _⟩

end Resolver
end EbuildGraph
