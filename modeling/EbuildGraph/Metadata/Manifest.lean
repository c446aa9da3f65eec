import EbuildGraph.FileTree
import EbuildGraph.Names.NameMap
import EbuildGraph.Text.Base64
import EbuildGraph.Text.Blank
import EbuildGraph.Text.Lowercase
import EbuildGraph.Text.Percent
import EbuildGraph.Text.Split

/-!
# Manifests

A manifest lists the distribution files of a package with sizes and digests, one
{lit}`DIST file size HASH digest HASH digest` to a line.  Other lines do not count.

Main definitions:

- {lit}`integrity`: a digest as an integrity string.
- {lit}`Manifest.parse`, {lit}`Manifest.load`: reads a manifest.
-/

namespace EbuildGraph

/-- A digest in hexadecimal as an integrity string, {lit}`hash-base64`. -/
def integrity (hash digits : String) : Except Text.HexFault String :=
  (Text.decodeHex digits).map fun bytes =>
    Text.lowercase hash ++ "-" ++ Text.encodeBase64 bytes

/-- A distribution file.  A digest that the manifest omits is empty. -/
structure DistFile where
  size : UInt64
  integrity : String
  sha256 : String
  sha512 : String
deriving DecidableEq

/-- The distribution files of a package. -/
structure Manifest where
  path : Path
  files : NameMap DistFile
deriving DecidableEq

namespace Manifest

/-- The digests that can become an integrity string, most preferred first. -/
def integrityAlgorithms : List String := ["SHA512", "SHA256", "BLAKE2B"]

/-- The name and the entry of one line.  A line for another kind of file, or
without a digest that can be used, has none. -/
def parseRow (number : Nat) (line : String) :
    Except ManifestFault (Option (String × DistFile)) :=
  match Text.words line with
  | "DIST" :: nameField :: sizeField :: digestFields =>
    match Text.decodePercent nameField with
    | .error fault => .error (.fileName number nameField fault)
    | .ok name =>
      match Text.parseSize sizeField with
      | .error fault => .error (.size number sizeField fault)
      | .ok size =>
        let digests := NameMap.ofList (Text.pairUp digestFields)
        match integrityAlgorithms.findSome? fun h => (digests.get? h).map fun d => (h, d) with
        | none => .ok none
        | some (hash, digits) =>
          match EbuildGraph.integrity hash digits with
          | .error fault => .error (.digest number hash digits fault)
          | .ok text =>
            .ok (some (name, ⟨size, text, (digests.get? "SHA256").getD "",
              (digests.get? "SHA512").getD ""⟩))
  | _ => .ok none

/-- Reads lines that start at the given number on top of the files read before. -/
def parseRows (number : Nat) (files : NameMap DistFile) :
    List String → Except ManifestFault (NameMap DistFile)
  | [] => .ok files
  | line :: rest =>
    match parseRow number line with
    | .error fault => .error fault
    | .ok none => parseRows (number + 1) files rest
    | .ok (some (name, entry)) => parseRows (number + 1) (files.insert name entry) rest

/-- Reads the text of the manifest at a path.  Of a repeated file the last line counts. -/
def parse (path : Path) (s : String) : Except Error Manifest :=
  match parseRows 1 NameMap.empty (Text.lines s) with
  | .error fault => .error (.manifest path fault)
  | .ok files => .ok ⟨path, files⟩

/-- Reads the manifest in a directory. -/
def load (tree : FileTree) (dir : Path) : Except Error Manifest :=
  let path := dir.child "Manifest"
  match tree.readText path with
  | .error fault => .error (.file path fault)
  | .ok s => parse path s

/-- The entry of a file. -/
def get? (m : Manifest) (name : String) : Option DistFile :=
  m.files.get? name

end Manifest
end EbuildGraph
