import EbuildGraph.Json.Parser
import EbuildGraph.Record.Basic

/-!
# Records as JSON

Main definitions:

- {lit}`Record.toJson`, {lit}`Records.toJson`: records as values.
- {lit}`Record.ofJson?`, {lit}`Records.ofJson?`: the records that a value stands for.
- {lit}`Records.save`, {lit}`Records.load`: records in a file.
-/

namespace EbuildGraph

namespace Json

/-- A list of texts as a value. -/
def ofTexts (texts : List String) : Json :=
  array (texts.map text)

/-- The text that a value is. -/
def text? : Json → Option String
  | text s => some s
  | _ => none

/-- The natural number of 64 bits that a value is. -/
def size? : Json → Option UInt64
  | natural n => if n < UInt64.size then some (UInt64.ofNat n) else none
  | _ => none

/-- The list of texts that a value is. -/
def texts? : Json → Option (List String)
  | array elements => elements.mapM text?
  | _ => none

/-- The table that a value is; of a repeated name the last member counts, but each must
be readable. -/
def table? {α : Type} (read : Json → Option α) : Json → Option (NameMap α)
  | object members =>
    (members.mapM fun m => (read m.2).map fun value => (m.1, value)).map NameMap.ofList
  | _ => none

/-- The members of the given names: from an object, where none may be repeated and
others do not count, or from an array in the order of the names. -/
def fields? (names : List String) : Json → Option (NameMap Json)
  | object members =>
    let known := members.filter fun m => names.contains m.1
    if (known.map Prod.fst).Nodup then some (NameMap.ofList known) else none
  | array elements =>
    if elements.length ≤ names.length then some (NameMap.ofList (names.zip elements)) else none
  | _ => none

end Json

namespace SourceFile

/-- The names of the members of a distribution file, in order. -/
def memberNames : List String := ["uris", "size", "integrity", "SHA256", "SHA512"]

/-- A distribution file as a value. -/
def toJson (f : SourceFile) : Json :=
  .object [
    ("uris", .ofTexts f.uris),
    ("size", .natural f.size.toNat),
    ("integrity", .text f.integrity),
    ("SHA256", .text f.sha256),
    ("SHA512", .text f.sha512)]

/-- The distribution file that a value stands for. -/
def ofJson? (j : Json) : Option SourceFile := do
  let fields ← j.fields? memberNames
  let uris ← (← fields.get? "uris").texts?
  let size ← (← fields.get? "size").size?
  let integrity ← (← fields.get? "integrity").text?
  let sha256 ← (← fields.get? "SHA256").text?
  let sha512 ← (← fields.get? "SHA512").text?
  return ⟨uris, size, integrity, sha256, sha512⟩

end SourceFile

namespace Record

/-- The names of the members of a record, in order. -/
def memberNames : List String :=
  ["name", "mainSlot", "ebuildPath", "version", "buildDeps", "localSrc", "runtimeDeps",
    "srcUris", "postDeps"]

/-- A record as a value.  An empty list of post-dependencies is left out. -/
def toJson (r : Record) : Json :=
  .object ([
    ("name", .text r.name),
    ("mainSlot", .text r.mainSlot),
    ("ebuildPath", .text r.ebuildPath),
    ("version", .text r.version),
    ("buildDeps", .ofTexts r.buildDependencies),
    ("localSrc", .ofTexts r.localSources),
    ("runtimeDeps", .ofTexts r.runtimeDependencies),
    ("srcUris", .object (r.sourceFiles.mapEntries fun _ file => file.toJson).entries)] ++
    (if r.postDependencies.isEmpty then [] else [("postDeps", .ofTexts r.postDependencies)]))

/-- The record that a value stands for.  Only the post-dependencies may be missing. -/
def ofJson? (j : Json) : Option Record := do
  let fields ← j.fields? memberNames
  let name ← (← fields.get? "name").text?
  let mainSlot ← (← fields.get? "mainSlot").text?
  let ebuildPath ← (← fields.get? "ebuildPath").text?
  let version ← (← fields.get? "version").text?
  let buildDependencies ← (← fields.get? "buildDeps").texts?
  let localSources ← (← fields.get? "localSrc").texts?
  let runtimeDependencies ← (← fields.get? "runtimeDeps").texts?
  let sourceFiles ← (← fields.get? "srcUris").table? SourceFile.ofJson?
  let postDependencies ← ((fields.get? "postDeps").getD (.array [])).texts?
  return ⟨name, mainSlot, ebuildPath, version, buildDependencies, localSources,
    runtimeDependencies, sourceFiles, postDependencies⟩

end Record

namespace Records

/-- Records as a value. -/
def toJson (records : Records) : Json :=
  .object (records.mapEntries fun _ record => record.toJson).entries

/-- The records that a value stands for. -/
def ofJson? (j : Json) : Option Records :=
  j.table? Record.ofJson?

/-- Records as the text of a file. -/
def print (records : Records) : String :=
  (toJson records).print ++ "\n"

/-- The records in the text of a file. -/
def parse? (s : String) : Option Records :=
  (Json.parse? s).bind ofJson?

/-- The tree with records written to a file. -/
def save (tree : FileTree) (path : Path) (records : Records) : Except Error FileTree :=
  (tree.writeText path (print records)).mapError (.file path)

/-- The records in a file. -/
def load (tree : FileTree) (path : Path) : Except Error Records :=
  match tree.readText path with
  | .error fault => .error (.file path fault)
  | .ok s =>
    match parse? s with
    | some records => .ok records
    | none => .error .records

end Records
end EbuildGraph
