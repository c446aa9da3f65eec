import EbuildGraph.Configuration.UseFlags
import EbuildGraph.Metadata.Cache
import EbuildGraph.Repository.Basic

/-!
# Ebuilds

The metadata of an ebuild comes from the metadata cache of its repository, or else
from running the ebuild.  Either goes on top of the global variables and those that
every ebuild finds set.

Main definitions:

- {lit}`Ebuild.packageOfPath`: the package that an ebuild at a path belongs to.
- {lit}`Ebuild.packageVariables`: the variables that the ebuild of a package finds set.
- {lit}`Ebuild.read`: metadata and USE flags of the ebuild at a path.
- {lit}`Ebuild.ReadCache`: reads that are done once for a path.
-/

namespace EbuildGraph

/-- The metadata of an ebuild with all variables, and the flags that are on. -/
structure EvaluatedEbuild where
  metadata : Variables
  useFlags : NameSet
deriving DecidableEq, Inhabited

namespace Ebuild

/-- The names of the directories that a path lies in, innermost first. -/
def directoryNames (path : Path) : List String :=
  path.ancestors.filterMap Path.fileName?

/-- The package that an ebuild belongs to: the ebuild of {lit}`category/name` lies in
the directory {lit}`category/name` and is named {lit}`name-version.ebuild`. -/
def packageOfPath (path : Path) : Except Error PackageVersion :=
  let fail (fault : PlaceFault) : Except Error PackageVersion := .error (.ebuildPlace path fault)
  match path.fileName? with
  | none => fail .noFileName
  | some fileName =>
    match Text.dropEnd? ebuildEnding fileName with
    | none => fail .noEnding
    | some stem =>
      match directoryNames path with
      | shortName :: category :: _ =>
        match Version.splitTrailing stem with
        | .error fault => .error (.version fault)
        | .ok (start, version) =>
          match Text.dropEnd? "-" start with
          | none => fail .packageName
          | some name =>
            if name = shortName then .ok ⟨category ++ "/" ++ shortName, version⟩
            else fail .directoryName
      | _ => fail .tooShallow

/-- The category and the short name in a package name; a name without a slash has
no category. -/
def splitName (name : String) : String × String :=
  (Text.cut '/' name).getD ("", name)

/-- The variables that the ebuild of a package finds set. -/
def packageVariables (package : PackageVersion) : Variables :=
  let (category, shortName) := splitName package.name
  let bare := package.version.withoutRevision.text
  let full := package.version.text
  NameMap.ofList [
    ("P", shortName ++ "-" ++ bare),
    ("PF", shortName ++ "-" ++ full),
    ("PN", shortName),
    ("CATEGORY", category),
    ("PR", "r" ++ (package.version.revision.getD Numeral.zero).text),
    ("PV", bare),
    ("PVR", full)]

/-- Where the metadata cache of the repository keeps the entry of an ebuild. -/
def cachePath? (path : Path) (package : PackageVersion) : Option Path := do
  let directory ← path.parent?
  let category ← directory.parent?
  let root ← category.parent?
  let (categoryName, shortName) ← Text.cut '/' package.name
  return ((root.child "metadata/md5-cache").child categoryName).child
    (shortName ++ "-" ++ package.version.text)

/-- The cache entry at a path on top of the environment. -/
def readCached (tree : FileTree) (env : Variables) (path : Path) : Except Error Variables :=
  match tree.readText path with
  | .error fault => .error (.file path fault)
  | .ok s =>
    match CachedMetadata.parse s with
    | .error cause => .error (.during path.text cause)
    | .ok entry => .ok (env.overlay entry.toVars)

/-- The variables that an ebuild assigns on top of the environment. -/
def runEbuild (tree : FileTree) (env : Variables) (path : Path) : Except Error Variables :=
  let (env, assigned) := Script.run tree .ebuild path env
  assigned.map env.overlay

/-- The metadata of an ebuild on top of the environment, from the metadata cache if
that has an entry. -/
def readMetadata (tree : FileTree) (env : Variables) (path : Path) (package : PackageVersion) :
    Except Error Variables :=
  match (cachePath? path package).filter tree.isFile with
  | some cached => readCached tree env cached
  | none => runEbuild tree env path

/-- Metadata and USE flags of an ebuild, without saying which one failed. -/
def evaluate (tree : FileTree) (config : Configuration.Source) (path : Path) :
    Except Error EvaluatedEbuild := do
  let package ← packageOfPath path
  let (env, tables) := config.globalTables tree NameMap.empty
  let _ ← tables
  let metadata ← readMetadata tree (env.overlay (packageVariables package)) path package
  let useFlags ← Configuration.useFlags tree config package metadata
  return ⟨metadata, useFlags⟩

/-- Metadata and USE flags of the ebuild at a path. -/
def read (tree : FileTree) (config : Configuration.Source) (path : Path) :
    Except Error EvaluatedEbuild :=
  (evaluate tree config path).mapError (.during ("reading ebuild metadata: " ++ path.text))

/-- What earlier reads of ebuilds gave, failures included. -/
structure ReadCache where
  reads : List (Path × Except Error EvaluatedEbuild)

namespace ReadCache

/-- No read done yet. -/
def empty : ReadCache := ⟨[]⟩

instance : Inhabited ReadCache := ⟨empty⟩

/-- What an earlier read of a path gave, however the path was spelled then. -/
def find? (cache : ReadCache) (path : Path) : Option (Except Error EvaluatedEbuild) :=
  (cache.reads.find? fun entry => entry.1.same path).map Prod.snd

/-- Reads an ebuild unless it has been read before, and remembers the outcome. -/
def read (tree : FileTree) (config : Configuration.Source) (cache : ReadCache) (path : Path) :
    ReadCache × Except Error EvaluatedEbuild :=
  match cache.find? path with
  | some outcome => (cache, outcome)
  | none =>
    let outcome := Ebuild.read tree config path
    (⟨cache.reads ++ [(path, outcome)]⟩, outcome)

end ReadCache
end Ebuild
end EbuildGraph
