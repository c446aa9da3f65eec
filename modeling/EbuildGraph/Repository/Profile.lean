import EbuildGraph.Configuration.Source
import EbuildGraph.Repository.Basic

/-!
# Profiles

A profile is a directory below a repository's profiles.  Its {lit}`parent` file names
the profiles it inherits, by repository and path or by a path relative to itself.

Main definitions:

- {lit}`RepositorySet.locateByName`, {lit}`RepositorySet.locateByPath`,
  {lit}`RepositorySet.locate`: where a reference to a profile leads.
- {lit}`RepositorySet.loadProfile`: a profile with the profiles it inherits.
- {lit}`Profile.settings`: the variables and layers of the whole inheritance, parents first.
-/

namespace EbuildGraph

/-- The place of a profile: a repository and a cleaned path below its profiles. -/
structure ProfileAddress where
  index : Nat
  repository : Repository
  key : Path
deriving DecidableEq

namespace ProfileAddress

/-- The name of the profile at an address. -/
def name (a : ProfileAddress) : String :=
  a.repository.name ++ ":" ++ a.key.text

/-- The directory of the profile at an address. -/
def path (a : ProfileAddress) : Path :=
  a.repository.profilesDirectory.join a.key

end ProfileAddress

/-- A profile and the profiles it inherits. -/
inductive Profile where
  | mk (name : String) (path : Path) (parents : List Profile)

namespace Profile

instance : Inhabited Profile := ⟨mk "" ⟨""⟩ []⟩

/-- The name of a profile. -/
def name : Profile → String
  | mk name _ _ => name

/-- The directory of a profile. -/
def path : Profile → Path
  | mk _ path _ => path

/-- The profiles that a profile inherits directly. -/
def parents : Profile → List Profile
  | mk _ _ parents => parents

mutual

/-- The directories of a profile and all it inherits, parents first. -/
def ancestry : Profile → List Path
  | mk _ path parents => lineageOfAll parents ++ [path]

/-- The directories of profiles and all they inherit, parents first. -/
def lineageOfAll : List Profile → List Path
  | [] => []
  | p :: rest => p.ancestry ++ lineageOfAll rest

end

/-- Reads the variables and the layer of each directory on top of the variables
of those before it. -/
def readLineage (tree : FileTree) (vars : Variables) :
    List Path → Except Error (Variables × List Configuration.Layer)
  | [] => .ok (vars, [])
  | dir :: rest => do
    let defaults := dir.child "make.defaults"
    let vars ← if tree.pathExists defaults then Script.mergeDefaults tree defaults vars
      else .ok vars
    let layer ← Configuration.Layer.load tree dir
    let (vars, layers) ← readLineage tree vars rest
    return (vars, layer :: layers)

/-- The variables and layers of a profile and all it inherits, parents first. -/
def settings (tree : FileTree) (p : Profile) : Except Error Configuration.ProfileSettings := do
  let (vars, layers) ← readLineage tree NameMap.empty p.ancestry
  return ⟨p.name, vars, layers⟩

end Profile

namespace RepositorySet

/-- Where a path below the profiles of a repository leads.  The path must not lead
out of them. -/
def addressIn (index : Nat) (r : Repository) (reference : String) :
    Except Error ProfileAddress :=
  let trimmed := Text.dropEndWhile (· == '/') reference.toList
  let key := (Path.mk (String.ofList trimmed)).clean
  if key.isAbsolute || key.components.head? = some .parent then
    .error (.profile (.outside r.name reference))
  else .ok ⟨index, r, key⟩

/-- Where a name of the form {lit}`repository:path` leads. -/
def locateByName (s : RepositorySet) (name : String) : Except Error ProfileAddress :=
  match Text.cut ':' name with
  | none => .error (.profile (.unqualified name))
  | some (repository, reference) =>
    match s.find? repository with
    | none => .error (.profile (.unknownRepository name repository))
    | some (index, r) => addressIn index r reference

/-- The first repository whose profiles contain a path, and the path below them. -/
def findContaining? (path : Path) : List (Repository × Nat) → Option (Nat × Repository × Path)
  | [] => none
  | (r, index) :: rest =>
    match path.stripStart? r.profilesDirectory with
    | some key => if key.text = "" then findContaining? path rest else some (index, r, key)
    | none => findContaining? path rest

/-- A path cleaned, from the working directory if it is relative. -/
def absolutePath (tree : FileTree) (path : Path) : Path :=
  if path.isAbsolute then path.clean else (tree.workingDirectory.join path).clean

/-- Where the path of a profile leads. -/
def locateByPath (tree : FileTree) (s : RepositorySet) (path : Path) :
    Except Error ProfileAddress :=
  let path := absolutePath tree path
  match findContaining? path s.repositories.zipIdx with
  | none => .error (.profile (.unknownPath path))
  | some (index, r, key) => addressIn index r key.text

/-- Where a reference in the parent file of the profile in a directory leads. -/
def locate (tree : FileTree) (s : RepositorySet) (base : Path) (reference : String) :
    Except Error ProfileAddress :=
  if reference.toList.contains ':' then s.locateByName reference
  else s.locateByPath tree (base.child reference)

/-- Loads the profile in a directory; the given function loads the profiles that its
parent file refers to. -/
def loadWith (parent : Path → String → Except Error Profile) (tree : FileTree)
    (name : String) (path : Path) : Except Error Profile :=
  if tree.isDirectory path then do
    let lines ← Configuration.readLines tree (path.child "parent")
    let parents ← lines.mapM fun line =>
      (parent path line.2).mapError (.during ("profile " ++ name))
    return .mk name path parents
  else .error (.profile (.missing name))

/-- Loads the profile that a reference leads to, with inheritance up to a depth. -/
def loadParent (tree : FileTree) (s : RepositorySet) :
    Nat → Path → String → Except Error Profile
  | 0, _, reference => .error (.profile (.missing reference))
  | depth + 1, base, reference => do
    let address ← s.locate tree base reference
    loadWith (loadParent tree s depth) tree address.name address.path

/-- How deep profiles may inherit from one another. -/
def maxInheritance : Nat := 1000

/-- Loads the profile in a directory under a given name. -/
def loadProfile (tree : FileTree) (s : RepositorySet) (name : String) (path : Path) :
    Except Error Profile :=
  loadWith (loadParent tree s maxInheritance) tree name path

/-- Loads the profile at an address. -/
def profileAt (tree : FileTree) (s : RepositorySet) (address : ProfileAddress) :
    Except Error Profile :=
  s.loadProfile tree address.name address.path

/-- Loads the profile of a name. -/
def profileOfName (tree : FileTree) (s : RepositorySet) (name : String) : Except Error Profile :=
  (s.locateByName name).bind (s.profileAt tree)

/-- Loads the profile of a path. -/
def profileOfPath (tree : FileTree) (s : RepositorySet) (path : Path) : Except Error Profile :=
  (s.locateByPath tree path).bind (s.profileAt tree)

end RepositorySet

end EbuildGraph
