import EbuildGraph.Configuration.Layer
import EbuildGraph.Script.Evaluation

/-!
# Stacked sources of configuration

A source is a profile, the user's configuration, a fixed set of flags and provided
packages, or a bundle of sources in increasing priority.  A source answers with
tables of variables, one to a file it read, with masked and forced flags, with
masks of packages and with provided packages.

Main definitions:

- {lit}`Source.globalTables`, {lit}`Source.packageTables`: the tables for all packages and
  for one, on top of an environment.
- {lit}`Source.applyUse`: masked and forced flags on top of earlier ones.
- {lit}`Source.maskedPackages`, {lit}`Source.provided`: masks and provided packages.
-/

namespace EbuildGraph
namespace Configuration

/-- A profile with the variables and the layers of all profiles it inherits. -/
structure ProfileSettings where
  name : String
  vars : Variables
  layers : List Layer
deriving DecidableEq

/-- The user's configuration below a root directory. -/
structure UserSettings where
  root : Path
  packageUse : Layer
  profile : Layer
deriving DecidableEq

/-- A source of configuration. -/
inductive Source where
  | profile (settings : ProfileSettings)
  | user (settings : UserSettings)
  | fixed (useFlags : String) (provided : List PackageVersion)
  | bundle (sources : List Source)

/-- The environment afterwards, and the tables or the failure. -/
abbrev TableRun := Variables × Except Error (List Variables)

namespace TableRun

/-- A run that leaves tables behind. -/
def done (env : Variables) (tables : List Variables) : TableRun := (env, .ok tables)

/-- Goes on with the environment and appends further tables. -/
def andThen (r : TableRun) (next : Variables → TableRun) : TableRun :=
  match r.2 with
  | .error _ => r
  | .ok tables =>
    let (env, more) := next r.1
    (env, more.map (tables ++ ·))

end TableRun

/-- The table that only sets flags. -/
def useTable (flags : String) : Variables :=
  NameMap.empty.insert "USE" flags

/-- The tables that flags for one package amount to: none without flags. -/
def useTables (flags : List String) : List Variables :=
  if flags.isEmpty then [] else [useTable (Text.unwords flags)]

namespace UserSettings

/-- Where the user's variables may be set, first to last. -/
def variableFiles : List String := ["etc/make.conf", "etc/portage/make.conf"]

/-- The user's configuration below a root directory. -/
def load (tree : FileTree) (root : Path) : Except Error UserSettings := do
  let dir := root.child "etc/portage"
  let packageUse ← readPackageFlags tree (dir.child "package.use")
  let profile ← Layer.load tree (dir.child "profile")
  return { root, packageUse := { packageUse }, profile }

/-- Runs the files that exist, in order. -/
def runFiles (tree : FileTree) : List Path → Variables → TableRun
  | [], env => .done env []
  | path :: rest, env =>
    if tree.pathExists path then
      let (env, assigned) := Script.run tree (.configuration true) path env
      TableRun.andThen (env, assigned.map ([·])) (runFiles tree rest)
    else runFiles tree rest env

/-- The tables of the user's variables. -/
def globalTables (tree : FileTree) (u : UserSettings) (env : Variables) : TableRun :=
  runFiles tree (variableFiles.map u.root.child) env

end UserSettings

namespace Source

mutual

/-- The tables of a source for all packages. -/
def globalTables (tree : FileTree) : Source → Variables → TableRun
  | profile p, env => .done (env.overlay p.vars) [p.vars]
  | user u, env => u.globalTables tree env
  | fixed flags _, env => .done (env.insert "USE" flags) [useTable flags]
  | bundle sources, env => globalTablesAll tree sources env

/-- The tables of sources for all packages. -/
def globalTablesAll (tree : FileTree) : List Source → Variables → TableRun
  | [], env => .done env []
  | s :: rest, env => (s.globalTables tree env).andThen (globalTablesAll tree rest)

end

mutual

/-- The tables of a source for one package. -/
def packageTables (tree : FileTree) (target : ConcretePackage) : Source → Variables → TableRun
  | profile p, env =>
    .done (env.overlay p.vars)
      (p.vars :: useTables (p.layers.flatMap fun layer => layer.setFlags target))
  | user u, env =>
    (u.globalTables tree env).andThen fun env =>
      .done env (useTables (u.packageUse.setFlags target ++ u.profile.setFlags target))
  | fixed flags _, env => .done (env.insert "USE" flags) [useTable flags]
  | bundle sources, env => packageTablesAll tree target sources env

/-- The tables of sources for one package. -/
def packageTablesAll (tree : FileTree) (target : ConcretePackage) :
    List Source → Variables → TableRun
  | [], env => .done env []
  | s :: rest, env => (s.packageTables tree target env).andThen (packageTablesAll tree target rest)

end

mutual

/-- The masked and forced flags of a source on top of earlier ones. -/
def applyUse (target : ConcretePackage) : Source → UseStates → UseStates
  | profile p, states => p.layers.foldl (fun states layer => layer.applyUse target states) states
  | user u, states => u.profile.applyUse target states
  | fixed _ _, states => states
  | bundle sources, states => applyUseAll target sources states

/-- The masked and forced flags of sources on top of earlier ones. -/
def applyUseAll (target : ConcretePackage) : List Source → UseStates → UseStates
  | [], states => states
  | s :: rest, states => applyUseAll target rest (s.applyUse target states)

end

mutual

/-- The package masks of a source.  Within a profile later layers lift masks of
earlier ones; the masks of bundled sources are listed one after another. -/
def maskedPackages : Source → List Atom
  | profile p => p.layers.foldl (fun masks layer => layer.maskPackages masks) []
  | user u => u.profile.maskPackages []
  | fixed _ _ => []
  | bundle sources => maskedPackagesAll sources

/-- The package masks of sources one after another. -/
def maskedPackagesAll : List Source → List Atom
  | [] => []
  | s :: rest => s.maskedPackages ++ maskedPackagesAll rest

end

mutual

/-- The packages that a source treats as installed. -/
def provided : Source → List PackageVersion
  | profile p => p.layers.flatMap Layer.provided
  | user u => u.profile.provided
  | fixed _ packages => packages
  | bundle sources => providedAll sources

/-- The packages that sources treat as installed. -/
def providedAll : List Source → List PackageVersion
  | [] => []
  | s :: rest => s.provided ++ providedAll rest

end

end Source

end Configuration
end EbuildGraph
