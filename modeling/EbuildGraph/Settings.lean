import EbuildGraph.Metadata.Keyword
import EbuildGraph.Overrides
import EbuildGraph.Toml.Assembly

/-!
# Settings of a resolver

Main definitions:

- {lit}`Settings`: where ebuilds must lie, which stability is preferred, and overrides.
- {lit}`Settings.load`: the settings in a file.
-/

namespace EbuildGraph

/-- The settings of a resolver. -/
structure Settings where
  /-- The directory that every selected ebuild lies below. -/
  sourceRoot : Path := ⟨"/mnt/host/source/src"⟩
  /-- The tiers in which packages are looked for, most preferred first. -/
  stabilityOrder : List Stability := [.testing, .stable]
  overrides : Overrides := Overrides.standard
deriving DecidableEq, Inhabited

namespace Exclusion

/-- The names of the fields of a rule, in order. -/
def fieldNames : List String := ["package", "slots", "use_dep", "use_dep_prefix"]

/-- The rule that a value describes. -/
def ofToml? (value : Toml) : Option Exclusion := do
  let fields ← value.fields? fieldNames
  let package ← Toml.field? fields "package" "" Toml.text?
  let slots ← Toml.field? fields "slots" [] (Toml.list? Toml.text?)
  let useDependency ← Toml.field? fields "use_dep" none fun v => v.text?.map some
  let useDependencyStart ← Toml.field? fields "use_dep_prefix" none fun v => v.text?.map some
  return { package, slots, useDependency, useDependencyStart }

end Exclusion

namespace Overrides

/-- The names of the fields of overrides, in order. -/
def fieldNames : List String :=
  ["force_use", "force_provided", "invalid_ebuilds", "forced_deps", "extra_deps", "unavailable"]

/-- The table of lists of texts that a value is. -/
def textLists? (value : Toml) : Option (NameMap (List String)) :=
  (value.entries? (Toml.list? Toml.text?)).map NameMap.ofList

/-- The table of such tables that a value is. -/
def textListTables? (value : Toml) : Option (NameMap (NameMap (List String))) :=
  (value.entries? textLists?).map NameMap.ofList

/-- The overrides that a value describes; missing fields are empty. -/
def ofToml? (value : Toml) : Option Overrides := do
  let fields ← value.fields? fieldNames
  let texts := Toml.list? Toml.text?
  let forceUse ← Toml.field? fields "force_use" [] texts
  let forceProvided ← Toml.field? fields "force_provided" [] texts
  let invalidEbuilds ← Toml.field? fields "invalid_ebuilds" [] texts
  let forcedDependencies ← Toml.field? fields "forced_deps" NameMap.empty textLists?
  let extraDependencies ← Toml.field? fields "extra_deps" NameMap.empty textListTables?
  let unavailable ← Toml.field? fields "unavailable" [] (Toml.list? Exclusion.ofToml?)
  return ⟨forceUse, forceProvided, invalidEbuilds, forcedDependencies, extraDependencies,
    unavailable⟩

/-- The overrides that a text describes. -/
def parse (s : String) : Except Error Overrides :=
  match (Toml.parse? s).bind ofToml? with
  | some overrides => .ok overrides
  | Option.none => .error .settings

end Overrides

namespace Settings

/-- The settings in force when none are given. -/
def standard : Settings := {}

/-- The settings that a value describes; missing fields are the standard ones. -/
def ofToml? (value : Toml) : Option Settings := do
  let members ← value.members?
  let sourceRoot ← Toml.field? members "source_root" standard.sourceRoot fun v =>
    v.text?.map Path.mk
  let stabilityOrder ← Toml.field? members "stability_order" standard.stabilityOrder
    (Toml.list? fun v => v.choice?.bind Stability.ofText?)
  let overrides ← Toml.field? members "overrides" standard.overrides Overrides.ofToml?
  return { sourceRoot, stabilityOrder, overrides }

/-- The settings that a text describes. -/
def parse (s : String) : Except Error Settings :=
  match (Toml.parse? s).bind ofToml? with
  | some settings => .ok settings
  | none => .error .settings

/-- The settings in a file. -/
def load (tree : FileTree) (path : Path) : Except Error Settings :=
  match tree.readText path with
  | .error fault => .error (.file path fault)
  | .ok s => parse s

end Settings
end EbuildGraph
