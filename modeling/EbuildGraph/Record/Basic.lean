import EbuildGraph.Package.SourceFile

/-!
# Records of resolved packages

Main definitions:

- {lit}`Record`: what is known of a resolved package.
- {lit}`Records`: records by label.
-/

namespace EbuildGraph

/-- A resolved package.  Dependencies are labels of other records, and the path of the
ebuild is relative to the source root. -/
structure Record where
  name : String
  mainSlot : String
  ebuildPath : String
  version : String
  buildDependencies : List String
  localSources : List String
  runtimeDependencies : List String
  sourceFiles : NameMap SourceFile
  postDependencies : List String
deriving DecidableEq

/-- Records by label, {lit}`//directory:slot`. -/
abbrev Records := NameMap Record

end EbuildGraph
