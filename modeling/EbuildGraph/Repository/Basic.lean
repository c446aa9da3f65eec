import EbuildGraph.Configuration.ListFile

/-!
# Repositories of ebuilds

A repository is a directory with ebuilds below {lit}`category/package` and profiles
below {lit}`profiles`.  Repositories are stacked, the last with the highest priority.

Main definitions:

- {lit}`Repository.load`: reads the name and the default EAPI of a repository.
- {lit}`Repository.ebuilds`: the ebuilds of a package, newest first.
- {lit}`RepositorySet`: repositories in increasing priority.
-/

namespace EbuildGraph

/-- A repository of ebuilds. -/
structure Repository where
  root : Path
  name : String
  eapi : String
deriving DecidableEq

/-- An ebuild found in a repository. -/
structure EbuildFile where
  path : Path
  version : Version
deriving DecidableEq

/-- The ending of the names of ebuild files. -/
def ebuildEnding : String := ".ebuild"

namespace Repository

/-- The directory of a repository's profiles. -/
def profilesDirectory (r : Repository) : Path :=
  r.root.child "profiles"

/-- The trimmed text of a file, if there is one. -/
def readTrimmed? (tree : FileTree) (path : Path) : Except Error (Option String) :=
  match tree.readText path with
  | .ok s => .ok (some (Text.trim s))
  | .error .notFound => .ok none
  | .error fault => .error (.file path fault)

/-- A key and a value around an equal sign. -/
def keyValueOfLine (line : String) : Except LineFault (String × String) :=
  match Text.cut '=' line with
  | none => .error .keyValue
  | some (key, value) => .ok (Text.trim key, Text.trim value)

/-- The settings in a layout file; of a repeated key the last counts. -/
def readLayout (tree : FileTree) (path : Path) : Except Error (NameMap String) :=
  (Configuration.readEach tree path keyValueOfLine).map NameMap.ofList

/-- Reads the name and the default EAPI of the repository in a directory.  A
repository without a name of its own is named after its directory. -/
def load (tree : FileTree) (root : Path) : Except Error Repository := do
  let layout ← readLayout tree (root.child "metadata/layout.conf")
  let declared ← readTrimmed? tree (root.child "profiles/repo_name")
  let name := declared.getD ((layout.get? "repo-name").getD "")
  let eapi ← readTrimmed? tree (root.child "profiles/eapi")
  return {
    root
    name := if name = "" then "x-" ++ root.fileName?.getD "" else name
    eapi := eapi.getD "0" }

/-- The version in the name of an ebuild of a package, if the name is one. -/
def versionOfFileName? (shortName fileName : String) : Option Version :=
  ((Text.dropStart? (shortName ++ "-") fileName).bind (Text.dropEnd? ebuildEnding)).bind
    fun s => (Version.parse s).toOption

/-- The ebuild that an entry of a package's directory is, if it is one.  Directories
are none. -/
def ebuildNamed? (shortName : String) (dir : Path) (entry : String × Node) :
    Option EbuildFile :=
  if entry.2.isDirectory then none
  else (versionOfFileName? shortName entry.1).map fun version => ⟨dir.child entry.1, version⟩

/-- Newer ebuilds come first, and equally new ones in the order of their paths. -/
def comesBefore (a b : EbuildFile) : Bool :=
  match b.version.compare a.version with
  | .lt => true
  | .gt => false
  | .eq => decide (a.path.text ≤ b.path.text)

/-- The ebuilds of a package, newest first. -/
def ebuilds (tree : FileTree) (r : Repository) (name : String) :
    Except Error (List EbuildFile) :=
  let dir := r.root.child name
  match tree.listDirectory dir with
  | .error .notFound => .ok []
  | .error fault => .error (.file dir fault)
  | .ok entries =>
    let found := entries.filterMap (ebuildNamed? (Text.afterLast '/' name) dir)
    .ok (found.mergeSort comesBefore)

/-- The names of the entries of a directory. -/
def namesIn (tree : FileTree) (dir : Path) : List String :=
  match tree.listDirectory dir with
  | .ok entries => entries.map Prod.fst
  | .error _ => []

/-- The names of the packages that may have ebuilds. -/
def packageNames (tree : FileTree) (r : Repository) : List String :=
  (namesIn tree (r.root.child ".")).flatMap fun category =>
    (namesIn tree (r.root.child category)).map fun package => category ++ "/" ++ package

end Repository

/-- Repositories in increasing priority. -/
structure RepositorySet where
  repositories : List Repository
deriving DecidableEq, Inhabited

namespace RepositorySet

/-- Reads the repositories in a list of directories. -/
def load (tree : FileTree) (roots : List Path) : Except Error RepositorySet :=
  (roots.mapM fun root => (Repository.load tree root).mapError (.repository root)).map mk

/-- The repository of that name and its place in the list; the last one counts. -/
def find? (s : RepositorySet) (name : String) : Option (Nat × Repository) :=
  (s.repositories.zipIdx.reverse.find? fun entry => entry.1.name == name).map fun entry =>
    (entry.2, entry.1)

/-- The eclass directories in increasing priority. -/
def eclassDirectories (s : RepositorySet) : List Path :=
  s.repositories.map fun r => r.root.child "eclass"

/-- The ebuilds of a package from every repository, each repository's newest first. -/
def ebuilds (tree : FileTree) (s : RepositorySet) (name : String) :
    Except Error (List EbuildFile) :=
  (s.repositories.mapM fun (r : Repository) => r.ebuilds tree name).map List.flatten

end RepositorySet

end EbuildGraph
