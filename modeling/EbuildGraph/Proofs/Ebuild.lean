import EbuildGraph.Ebuild
import EbuildGraph.Proofs.Configuration.UseFlags
import EbuildGraph.Proofs.Metadata.Cache
import EbuildGraph.Proofs.Script.Evaluation

/-!
# Ebuilds with and without the metadata cache

The cache entry of an ebuild that lists what running it assigns gives the same metadata as
running it.  Only the user's variable files are read besides, so the USE flags are the same as
well unless one of these leads to the entry.

Main definition:

- {lit}`Configuration.Source.users`: the user configurations of a source.

Main results:

- Theorem {lit}`Configuration.Source.useFlags_congr`: only the user's variable files matter to
  the flags in use.
- Theorem {lit}`Ebuild.read_eq_read_cached`: an ebuild is read alike with and without its cache
  entry.
-/

namespace EbuildGraph

/-! ## Files that configuration reads -/

namespace Configuration
namespace Source

mutual

/-- The user configurations of a source. -/
def users : Source → List UserSettings
  | profile _ => []
  | user u => [u]
  | fixed _ _ => []
  | bundle sources => usersOfAll sources

/-- The user configurations of sources. -/
def usersOfAll : List Source → List UserSettings
  | [] => []
  | s :: rest => s.users ++ usersOfAll rest

end

/-- Whether the variable files of user configurations amount to the same in two trees. -/
def ReadAlike (tree tree' : FileTree) (us : List UserSettings) : Prop :=
  ∀ u ∈ us, ∀ env, u.globalTables tree env = u.globalTables tree' env

variable {tree tree' : FileTree}

mutual

/-- The tables for all packages come from the same files. -/
theorem globalTables_congr (source : Source) (h : ReadAlike tree tree' source.users)
    (env : Variables) : source.globalTables tree env = source.globalTables tree' env := by
  cases source with
  | profile p => rfl
  | user u => exact h u (List.mem_singleton.2 rfl) env
  | fixed flags provided => rfl
  | bundle sources => exact globalTablesAll_congr sources h env

/-- Sources have the same tables for all packages in trees in which the variable files of their
users read alike. -/
theorem globalTablesAll_congr (sources : List Source)
    (h : ReadAlike tree tree' (usersOfAll sources)) (env : Variables) :
    globalTablesAll tree sources env = globalTablesAll tree' sources env := by
  cases sources with
  | nil => rfl
  | cons s rest =>
    obtain ⟨hs, hrest⟩ := List.forall_mem_append.1 h
    rw [globalTablesAll, globalTablesAll, globalTables_congr s hs env]
    exact congrArg (TableRun.andThen _) (funext (globalTablesAll_congr rest hrest))

end

mutual

/-- The tables for one package come from the same files. -/
theorem packageTables_congr (target : ConcretePackage) (source : Source)
    (h : ReadAlike tree tree' source.users) (env : Variables) :
    source.packageTables tree target env = source.packageTables tree' target env := by
  cases source with
  | profile p => rfl
  | user u => rw [packageTables, packageTables, h u (List.mem_singleton.2 rfl) env]
  | fixed flags provided => rfl
  | bundle sources => exact packageTablesAll_congr target sources h env

/-- Sources have the same tables for a package in trees in which the variable files of their users
read alike. -/
theorem packageTablesAll_congr (target : ConcretePackage) (sources : List Source)
    (h : ReadAlike tree tree' (usersOfAll sources)) (env : Variables) :
    packageTablesAll tree target sources env = packageTablesAll tree' target sources env := by
  cases sources with
  | nil => rfl
  | cons s rest =>
    obtain ⟨hs, hrest⟩ := List.forall_mem_append.1 h
    rw [packageTablesAll, packageTablesAll, packageTables_congr target s hs env]
    exact congrArg (TableRun.andThen _) (funext (packageTablesAll_congr target rest hrest))

end

/-- Only the user's variable files matter to the flags in use. -/
theorem useFlags_congr {source : Source} (h : ReadAlike tree tree' source.users)
    (package : PackageVersion) (metadata : Variables) :
    useFlags tree source package metadata = useFlags tree' source package metadata := by
  simp only [useFlags, packageTables_congr package.toConcrete source h]

end Source

end Configuration

/-! ## Metadata from either source -/

namespace Ebuild

open EbuildGraph.Configuration

/-- What can be read as a text is a file. -/
theorem isFile_of_readText {tree : FileTree} {path : Path} {text : String}
    (h : tree.readText path = .ok text) : tree.isFile path = true := by
  unfold FileTree.readText at h
  unfold FileTree.isFile
  split at h
  · cases h
  · next contents hfind =>
    rw [hfind]
    rfl
  · cases h

/-- Running an ebuild puts what it assigns on top of the environment. -/
theorem runEbuild_eq_ok {tree : FileTree} {path : Path} {env assigned : Variables}
    (h : (Script.run tree .ebuild path env).2 = .ok assigned) :
    runEbuild tree env path = .ok (env.overlay assigned) := by
  rw [← Script.overlay_run h, runEbuild]
  dsimp only
  rw [h]
  rfl

/-- A cache entry with the lines of a table puts the table on top of the environment. -/
theorem readCached_eq_ok {tree : FileTree} {path : Path} {env vars : Variables}
    (h : vars.IsCacheable) (hnames : ∀ name ∈ vars.names, Script.IsVariableName name)
    {entries : List (String × String)} (hentries : entries.Perm vars.entries) {text : String}
    (htext : Text.IsTextOf (entries.map CachedMetadata.lineOf) text)
    (hread : tree.readText path = .ok text) :
    readCached tree env path = .ok (env.overlay vars) := by
  have hchars : ∀ e ∈ vars.entries, '=' ∉ e.1.toList ∧ '\n' ∉ e.1.toList := by
    intro e he
    have hname := hnames e.1 (List.mem_map_of_mem he)
    exact ⟨hname.not_mem (by decide), hname.not_mem (by decide)⟩
  have hparse := CachedMetadata.parse_of_isTextOf h hchars hentries htext
  rw [readCached, hread]
  simp only [hparse, CachedMetadata.toVars_of_no_eclasses]

/-- Without a cache entry the ebuild is run. -/
theorem readMetadata_of_missing {tree : FileTree} {path cached : Path} {package : PackageVersion}
    (hcached : cachePath? path package = some cached) (hmissing : tree.isFile cached = false)
    (env : Variables) : readMetadata tree env path package = runEbuild tree env path := by
  rw [readMetadata, hcached, Option.filter_some, if_neg (by simp [hmissing])]

/-- A cache entry is read instead of running the ebuild. -/
theorem readMetadata_of_readText {tree : FileTree} {path cached : Path}
    {package : PackageVersion} {text : String} (hcached : cachePath? path package = some cached)
    (hread : tree.readText cached = .ok text) (env : Variables) :
    readMetadata tree env path package = readCached tree env cached := by
  rw [readMetadata, hcached, Option.filter_some, if_pos (isFile_of_readText hread)]

/-- An ebuild whose cache entry is missing in one tree, and in the other lists what running the
ebuild assigns, one variable to a line in any order, is read alike in both: metadata and USE
flags are the same, for every configuration whose variable files amount to the same. -/
theorem read_eq_read_cached {tree tree' : FileTree} {config : Source} {path cached : Path}
    {package : PackageVersion} {assigned : Variables} {entries : List (String × String)}
    {text : String} (hconfig : Source.ReadAlike tree tree' config.users)
    (hpackage : packageOfPath path = .ok package) (hcached : cachePath? path package = some cached)
    (hrun : (Script.run tree .ebuild path
      ((config.globalTables tree NameMap.empty).1.overlay (packageVariables package))).2 =
        .ok assigned)
    (hcacheable : assigned.IsCacheable) (hmissing : tree.isFile cached = false)
    (hentries : entries.Perm assigned.entries)
    (htext : Text.IsTextOf (entries.map CachedMetadata.lineOf) text)
    (hread : tree'.readText cached = .ok text) :
    read tree config path = read tree' config path := by
  have hmetadata : readMetadata tree ((config.globalTables tree NameMap.empty).1.overlay
      (packageVariables package)) path package =
        readMetadata tree' ((config.globalTables tree NameMap.empty).1.overlay
          (packageVariables package)) path package := by
    rw [readMetadata_of_missing hcached hmissing, readMetadata_of_readText hcached hread,
      runEbuild_eq_ok hrun,
      readCached_eq_ok hcacheable (Script.isVariableName_of_run hrun) hentries htext hread]
  have hglobal := Source.globalTables_congr config hconfig NameMap.empty
  have hflags := Source.useFlags_congr hconfig package
  rw [read, read, evaluate, evaluate, hpackage, ← hglobal]
  simp only [bind, Except.bind, hmetadata, hflags]

/-- A tree with the ebuild of {lit}`dev-libs/foo-1`, which sets {lit}`USE`, and with given
contents of {lit}`etc` and of the metadata cache. -/
def fooTree (etc cache : List (String × Node)) : FileTree where
  root := .directory [
    ("etc", .directory etc),
    ("dev-libs", .directory [("foo", .directory [("foo-1.ebuild", .file (.text "USE=foo\n"))])]),
    ("metadata", .directory [("md5-cache", .directory [("dev-libs", .directory cache)])])]
  workingDirectory := ⟨"/"⟩

def fooPath : Path := ⟨"/dev-libs/foo/foo-1.ebuild"⟩

def fooCached : Path := ⟨"/metadata/md5-cache/dev-libs/foo-1"⟩

def fooPackage : PackageVersion :=
  ⟨"dev-libs/foo", ⟨⟨['1'], by decide, by decide⟩, [], none, [], none⟩⟩

/-- What the ebuild assigns. -/
def fooVariables : Variables := NameMap.ofList [("USE", "foo")]

/-- The cache entry of the ebuild. -/
def fooCache : List (String × Node) := [("foo-1", .file (.text "USE=foo\n"))]

/-- The user's configuration. -/
def fooUser : Source := .user ⟨⟨"/"⟩, {}, {}⟩

/-- The path of the sample names its package. -/
theorem packageOfPath_fooPath : packageOfPath fooPath = .ok fooPackage := by
  rfl

/-- The sample has its cache below the metadata of its repository. -/
theorem cachePath?_fooPath : cachePath? fooPath fooPackage = some fooCached := by
  rfl

/-- Running the sample gives its variables, whatever else is in the tree. -/
theorem run_fooPath (etc cache : List (String × Node)) (env : Variables) :
    (Script.run (fooTree etc cache) .ebuild fooPath env).2 = .ok fooVariables := by
  rfl

/-- The variables of the sample can stand in a cache. -/
theorem isCacheable_fooVariables : fooVariables.IsCacheable where
  eapi := ⟨_, rfl⟩
  name_ne := List.forall_mem_singleton.2 (by decide)
  isTrimmed := List.forall_mem_singleton.2 (by decide)
  not_mem := List.forall_mem_singleton.2 (by decide)

/-- The text of the cache has the one variable that the sample sets. -/
theorem isTextOf_fooVariables :
    Text.IsTextOf (fooVariables.entries.map CachedMetadata.lineOf) "USE=foo\n" :=
  .inr (by decide)

/-- Without variable files of the user the cache entry makes no difference. -/
theorem reads_foo_alike :
    read (fooTree [] []) (.bundle [.fixed "bar" [], fooUser]) fooPath =
      read (fooTree [] fooCache) (.bundle [.fixed "bar" [], fooUser]) fooPath := by
  have hconfig : Source.ReadAlike (fooTree [] []) (fooTree [] fooCache)
      (Source.bundle [.fixed "bar" [], fooUser]).users := by
    intro u hu env
    obtain rfl := List.mem_singleton.1 hu
    rfl
  exact read_eq_read_cached hconfig packageOfPath_fooPath cachePath?_fooPath
    (run_fooPath [] [] _) isCacheable_fooVariables rfl (.refl _) isTextOf_fooVariables rfl

/-- How a read succeeds. -/
theorem read_eq_ok {tree : FileTree} {config : Source} {path : Path} {package : PackageVersion}
    {env metadata : Variables} {tables : List Variables} {flags : NameSet}
    (hpackage : packageOfPath path = .ok package)
    (hglobal : config.globalTables tree NameMap.empty = (env, .ok tables))
    (hmetadata : readMetadata tree (env.overlay (packageVariables package)) path package =
      .ok metadata)
    (hflags : useFlags tree config package metadata = .ok flags) :
    read tree config path = .ok ⟨metadata, flags⟩ := by
  rw [read, evaluate, hpackage]
  simp only [bind, Except.bind, hglobal, hmetadata, hflags]
  rfl

/-- A variable file of the user that leads to the cache entry of the ebuild. -/
def linkToCache : List (String × Node) :=
  [("make.conf", .link ⟨"../metadata/md5-cache/dev-libs/foo-1"⟩)]

/-- With a variable file of the user that leads to it, the cache entry turns on a flag that is
off while the entry is missing. -/
theorem link_to_cache_sets_flag :
    packageOfPath fooPath = .ok fooPackage ∧ cachePath? fooPath fooPackage = some fooCached ∧
      (∀ env, (Script.run (fooTree linkToCache []) .ebuild fooPath env).2 = .ok fooVariables) ∧
      fooVariables.IsCacheable ∧ (fooTree linkToCache []).isFile fooCached = false ∧
      Text.IsTextOf (fooVariables.entries.map CachedMetadata.lineOf) "USE=foo\n" ∧
      (fooTree linkToCache fooCache).readText fooCached = .ok "USE=foo\n" ∧
      read (fooTree linkToCache []) fooUser fooPath ≠
        read (fooTree linkToCache fooCache) fooUser fooPath := by
  refine ⟨packageOfPath_fooPath, cachePath?_fooPath, run_fooPath linkToCache [],
    isCacheable_fooVariables, rfl, isTextOf_fooVariables, rfl, ?_⟩
  have hdefaults : IUse.enabledByDefault "" = .ok "" := by
    cbv
  have hmissing : read (fooTree linkToCache []) fooUser fooPath =
      .ok ⟨(packageVariables fooPackage).overlay fooVariables, NameSet.empty⟩ := by
    have hglobal : fooUser.globalTables (fooTree linkToCache []) NameMap.empty =
        (NameMap.empty, .ok []) := rfl
    refine read_eq_ok packageOfPath_fooPath hglobal ?_ ?_
    · rw [readMetadata_of_missing cachePath?_fooPath rfl]
      exact runEbuild_eq_ok (run_fooPath linkToCache [] _)
    · have hvalue : Variables.value ((packageVariables fooPackage).overlay fooVariables) "IUSE" =
          "" := rfl
      have htables : (fooUser.packageTables (fooTree linkToCache []) fooPackage.toConcrete
          NameMap.empty).2 = .ok [] := rfl
      rw [useFlags_eq_ok hvalue hdefaults htables]
      rfl
  have hpresent : read (fooTree linkToCache fooCache) fooUser fooPath =
      .ok ⟨(fooVariables.overlay (packageVariables fooPackage)).overlay fooVariables,
        NameSet.ofList ["foo"]⟩ := by
    have hglobal : fooUser.globalTables (fooTree linkToCache fooCache) NameMap.empty =
        (fooVariables, .ok [fooVariables]) := rfl
    have hnames := Script.isVariableName_of_run (run_fooPath [] [] NameMap.empty)
    refine read_eq_ok packageOfPath_fooPath hglobal ?_ ?_
    · rw [readMetadata_of_readText cachePath?_fooPath rfl]
      exact readCached_eq_ok isCacheable_fooVariables hnames (.refl _) isTextOf_fooVariables rfl
    · have hvalue : Variables.value ((fooVariables.overlay (packageVariables fooPackage)).overlay
          fooVariables) "IUSE" = "" := rfl
      have htables : (fooUser.packageTables (fooTree linkToCache fooCache) fooPackage.toConcrete
          NameMap.empty).2 = .ok [fooVariables] := rfl
      rw [useFlags_eq_ok hvalue hdefaults htables]
      rfl
  rw [hmissing, hpresent]
  intro heq
  have hflags : NameSet.empty = NameSet.ofList ["foo"] :=
    congrArg EvaluatedEbuild.useFlags (Except.ok.inj heq)
  exact absurd hflags (by decide)

end Ebuild
end EbuildGraph
