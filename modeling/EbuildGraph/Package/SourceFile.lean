import EbuildGraph.Metadata.Manifest
import EbuildGraph.Package.Basic
import EbuildGraph.SourceUri.Files
import EbuildGraph.SourceUri.Parser

/-!
# Distribution files of a package

The ebuild says where files come from, and the manifest beside it how to check them.

Main definition:

- {lit}`Package.sourceFiles`: the distribution files of a package under its flags.
-/

namespace EbuildGraph

/-- A distribution file: where it comes from and how it is checked. -/
structure SourceFile where
  uris : List String
  size : UInt64
  integrity : String
  sha256 : String
  sha512 : String
deriving DecidableEq

namespace SourceFile

/-- Addresses together with the entry of a manifest. -/
def ofEntry (uris : List String) (entry : DistFile) : SourceFile :=
  ⟨uris, entry.size, entry.integrity, entry.sha256, entry.sha512⟩

/-- Looks files up in a manifest.  The first one that is missing is the failure. -/
def lookUpAll (manifest : Manifest) :
    List (String × List String) → Except Error (List (String × SourceFile))
  | [] => .ok []
  | (name, uris) :: rest =>
    match manifest.get? name with
    | none => .error (.manifest manifest.path (.missingFile name))
    | some entry => (lookUpAll manifest rest).map ((name, ofEntry uris entry) :: ·)

end SourceFile

/-- The distribution files of a package under its flags.  A package without any needs
no manifest. -/
def Package.sourceFiles (tree : FileTree) (p : Package) : Except Error (NameMap SourceFile) := do
  let entries ← SourceUri.parse (Variables.value p.metadata "SRC_URI")
  let files ← SourceUri.downloads entries p.useFlags
  if files.isEmpty then return NameMap.empty
  let manifest ← Manifest.load tree (p.path.parent?.getD p.path)
  let found ← SourceFile.lookUpAll manifest files.entries
  return NameMap.ofList found

end EbuildGraph
