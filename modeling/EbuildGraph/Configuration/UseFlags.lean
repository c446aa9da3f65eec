import EbuildGraph.Configuration.Source
import EbuildGraph.Metadata.IUse

/-!
# Effective USE flags

Main definition:

- {lit}`useFlags`: the flags that are on for a package: the defaults of the ebuild,
  then every table of the configuration, less the masked flags, and with the forced
  ones.
-/

namespace EbuildGraph
namespace Configuration

/-- Whether an entry is the last word for a flag and says yes. -/
def isSet (states : FlagSwitches) (flag : String) : Bool :=
  (states.get? flag).getD false

/-- Flags without the masked ones and with the forced ones that are not masked. -/
def restrictFlags (states : UseStates) (flags : List String) : NameSet :=
  let kept := flags.filter fun flag => !isSet states.masks flag
  let forced := states.forces.names.filter fun flag =>
    isSet states.forces flag && !isSet states.masks flag
  (NameSet.ofList kept).insertAll forced

/-- The flags that are on for a package with the given metadata. -/
def useFlags (tree : FileTree) (source : Source) (package : PackageVersion) (metadata : Variables) :
    Except Error NameSet := do
  let defaults ← IUse.enabledByDefault (Variables.value metadata "IUSE")
  let target := package.toConcrete
  let tables ← (source.packageTables tree target NameMap.empty).2
  let vars := Variables.settle (useTable defaults :: tables)
  return restrictFlags (source.applyUse target .empty) (Variables.list vars "USE")

end Configuration
end EbuildGraph
