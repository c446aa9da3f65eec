import EbuildGraph.Package.Basic
import EbuildGraph.Settings

/-!
# Selecting packages

Main definitions:

- {lit}`Resolver`: repositories, configuration and settings.
- {lit}`Resolver.candidates`: the unmasked packages that satisfy an atom, newest first.
- {lit}`Resolver.best`: the package to use for an atom.
- {lit}`Resolver.provides`: whether a package that is treated as installed satisfies
  an atom.
-/

namespace EbuildGraph

/-- Repositories, configuration and settings to select packages with. -/
structure Resolver where
  tree : FileTree
  repositories : RepositorySet
  config : Configuration.Source
  settings : Settings

namespace Resolver

/-- Atoms whose packages are masked. -/
def masks (r : Resolver) : List Atom :=
  r.config.maskedPackages

/-- Packages that are treated as installed. -/
def provided (r : Resolver) : List PackageVersion :=
  r.config.provided

/-- The package of an ebuild.  An ebuild that cannot be read is none. -/
def package? (r : Resolver) (name : String) (file : EbuildFile) : Option Package :=
  match Ebuild.read r.tree r.config file.path with
  | .ok info => some ⟨file.path, name, file.version, info⟩
  | .error _ => none

/-- Whether a package is masked by one of the given atoms. -/
def isMasked (masks : List Atom) (p : Package) : Bool :=
  masks.any fun mask => mask.admits p.target

/-- Whether the first package is at least as new as the second. -/
def isNewer (a b : Package) : Bool :=
  b.version.compare a.version != .gt

/-- The unmasked packages that satisfy an atom, newest first. -/
def candidates (r : Resolver) (atom : Atom) : Except Error (List Package) := do
  let files ← r.repositories.ebuilds r.tree atom.name
  let masks := r.masks
  let found := (files.filterMap (r.package? atom.name)).filter fun p =>
    !isMasked masks p && atom.admits p.target
  return found.mergeSort isNewer

/-- Whether the ebuild of a package is never selected. -/
def isBarred (r : Resolver) (p : Package) : Bool :=
  r.settings.overrides.barsEbuild (p.path.fileName?.getD "")

/-- The first package of a tier.  Packages are looked at in order, and one whose
stability cannot be told is a failure. -/
def firstOfTier? (tier : Stability) : List Package → Except Error (Option Package)
  | [] => .ok none
  | p :: rest =>
    match p.stability with
    | .error err => .error err
    | .ok found => if found = tier then .ok (some p) else firstOfTier? tier rest

/-- The first package of the first tier that has one. -/
def firstByTier? (packages : List Package) : List Stability → Except Error (Option Package)
  | [] => .ok none
  | tier :: rest =>
    match firstOfTier? tier packages with
    | .error err => .error err
    | .ok (some p) => .ok (some p)
    | .ok none => firstByTier? packages rest

/-- The package to use for an atom: the newest one of the most preferred tier. -/
def best (r : Resolver) (atom : Atom) : Except Error Package := do
  let packages ← r.candidates atom
  match ← firstByTier? (packages.filter fun p => !r.isBarred p) r.settings.stabilityOrder with
  | some p => return p
  | none => throw (.noCandidate atom.text)

/-- Whether a package that is treated as installed satisfies an atom.  Such packages have
neither slot nor flags. -/
def provides (r : Resolver) (atom : Atom) : Bool :=
  r.provided.any fun p => atom.admits p.toConcrete

end Resolver
end EbuildGraph
