import EbuildGraph.Configuration.ListFile

/-!
# Layers of configuration

The list files of one directory form a layer.  Layers are applied on top of one
another, so a later entry undoes an earlier one.

Main definitions:

- {lit}`Layer.load`: the layer in a directory.
- {lit}`Layer.setFlags`: the flags of a layer for a package.
- {lit}`Layer.applyUse`: a layer's masked and forced flags on top of earlier ones.
- {lit}`Layer.maskPackages`: a layer's masks on top of earlier ones.
-/

namespace EbuildGraph
namespace Configuration

/-- Flags that are masked or forced, or no longer so. -/
abbrev FlagSwitches := NameMap Bool

/-- The list files of one directory. -/
structure Layer where
  packageUse : List PackageFlags := []
  useMask : List String := []
  useForce : List String := []
  packageUseMask : List PackageFlags := []
  packageUseForce : List PackageFlags := []
  packageMask : List MaskRule := []
  provided : List PackageVersion := []
deriving DecidableEq, Inhabited

namespace Layer

/-- The layer in a directory.  Missing files are empty. -/
def load (tree : FileTree) (dir : Path) : Except Error Layer := do
  let packageUse ← readPackageFlags tree (dir.child "package.use")
  let useMask ← readFlags tree (dir.child "use.mask")
  let useForce ← readFlags tree (dir.child "use.force")
  let packageUseMask ← readPackageFlags tree (dir.child "package.use.mask")
  let packageUseForce ← readPackageFlags tree (dir.child "package.use.force")
  let packageMask ← readPackageMasks tree (dir.child "package.mask")
  let provided ← readProvided tree (dir.child "package.provided")
  return { packageUse, useMask, useForce, packageUseMask, packageUseForce, packageMask, provided }

/-- The flags of the entries whose atoms admit a package, in order. -/
def flagsFor (entries : List PackageFlags) (target : ConcretePackage) : List String :=
  (entries.filter fun entry => entry.atom.admits target).flatMap PackageFlags.flags

/-- The flags that a layer sets for a package, in order. -/
def setFlags (layer : Layer) (target : ConcretePackage) : List String :=
  flagsFor layer.packageUse target

/-- Enters one flag; a hyphen before it undoes an earlier entry. -/
def enterFlag (states : FlagSwitches) (flag : String) : FlagSwitches :=
  match flag.toList with
  | '-' :: name => states.insert (String.ofList name) false
  | _ => states.insert flag true

/-- Enters flags in order. -/
def enterFlags (states : FlagSwitches) (flags : List String) : FlagSwitches :=
  flags.foldl enterFlag states

/-- The flags that a layer masks for a package: those for all packages first. -/
def maskFlags (layer : Layer) (target : ConcretePackage) : List String :=
  layer.useMask ++ flagsFor layer.packageUseMask target

/-- The flags that a layer forces for a package: those for all packages first. -/
def forceFlags (layer : Layer) (target : ConcretePackage) : List String :=
  layer.useForce ++ flagsFor layer.packageUseForce target

/-- Applies one line of a mask file: a mask is added, an unmasked atom removed. -/
def applyRule (masks : List Atom) (entry : MaskRule) : List Atom :=
  if entry.unmask then masks.filter fun atom => !atom.same entry.atom
  else masks ++ [entry.atom]

/-- A layer's masks on top of earlier ones. -/
def maskPackages (layer : Layer) (masks : List Atom) : List Atom :=
  layer.packageMask.foldl applyRule masks

end Layer

/-- The flags masked and forced so far. -/
structure UseStates where
  masks : FlagSwitches
  forces : FlagSwitches
deriving DecidableEq

/-- Nothing masked and nothing forced. -/
def UseStates.empty : UseStates := ⟨NameMap.empty, NameMap.empty⟩

/-- A layer's masked and forced flags on top of earlier ones. -/
def Layer.applyUse (layer : Layer) (target : ConcretePackage) (states : UseStates) : UseStates :=
  ⟨enterFlags states.masks (layer.maskFlags target),
    enterFlags states.forces (layer.forceFlags target)⟩

end Configuration
end EbuildGraph
