import EbuildGraph.Proofs.FileTree.Writing
import EbuildGraph.Proofs.Json.Text
import EbuildGraph.Proofs.Metadata.Cache
import EbuildGraph.Record.Codec

/-!
# Reading records back

Saved records are loaded as they were.  On the way down a table becomes the members of an
object, which have different names, so every one of them is found again; a size fits into 64
bits; and the list of post-dependencies that is left out when it is empty is empty where it is
missing.  For this it does not matter how values are spelled, as long as they are read back.

Main definition:

- {lit}`Json.Codec.IsFaithful`: whether values are read back from what they were spelled as.

Main results:

- Theorem {lit}`Json.table?_object`: a table is read back from its members.
- Theorem {lit}`Json.get?_of_fields`: the members of a record are found by name.
- Theorems {lit}`SourceFile.ofJson?_toJson`, {lit}`Record.ofJson?_toJson` and
  {lit}`Records.ofJson?_toJson`: a value stands for what it was made of.
- Theorem {lit}`Records.loadAs_of_saveAs`: saved records are loaded as they were if values are
  read back.
- Theorem {lit}`Records.load_of_save`: saved records are loaded as they were.
-/

namespace EbuildGraph

namespace Json

/-! ## Members -/

/-- Strings written as values are read back as the strings that they were. -/
theorem mapM_text?_map_text (texts : List String) :
    (texts.map text).mapM text? = some texts := by
  induction texts with
  | nil => rfl
  | cons s texts ih => simp [text?, ih]

@[simp]
theorem texts?_ofTexts (texts : List String) : (ofTexts texts).texts? = some texts :=
  mapM_text?_map_text texts

@[simp]
theorem size?_natural_toNat (size : UInt64) : (natural size.toNat).size? = some size := by
  have hlt : size.toNat < UInt64.size := size.toNat_lt_size
  simp [size?, hlt]

/-- A table is read back from its members. -/
theorem table?_object {α : Type} {read : Json → Option α} {toJson : α → Json}
    (hread : ∀ value, read (toJson value) = some value) (m : NameMap α) :
    (object (m.mapEntries fun _ value => toJson value).entries).table? read = some m := by
  have hmembers : ∀ es : List (String × α),
      (es.map fun e => (e.1, toJson e.2)).mapM
        (fun e => (read e.2).map fun value => (e.1, value)) = some es := by
    intro es
    induction es with
    | nil => rfl
    | cons e es ih => simp [hread, ih]
  simp [table?, NameMap.mapEntries, hmembers, NameMap.ofList_of_perm (.refl m.entries)]

/-- Members are found by name where they stand in the order of the names asked for. -/
theorem get?_of_fields {names : List String} {members : List (String × Json)}
    (hnames : names.Nodup) (hsub : (members.map Prod.fst).Sublist names) :
    ∃ fields, (object members).fields? names = some fields ∧
      ∀ name, fields.get? name = members.lookup name := by
  have hnodup : (members.map Prod.fst).Nodup := hnames.sublist hsub
  have hfilter : members.filter (fun m => names.contains m.1) = members := by
    refine List.filter_eq_self.2 fun m hm => ?_
    simpa using hsub.subset (List.mem_map_of_mem hm)
  refine ⟨NameMap.ofList members, ?_, fun name => ?_⟩
  · rw [fields?, hfilter]
    exact if_pos hnodup
  · have hpairwise : members.Pairwise fun a b => a.1 ≠ b.1 := List.pairwise_map.1 hnodup
    rw [NameMap.ofList, NameMap.get?_insertAll hpairwise, NameMap.get?_empty, Option.or_none]

/-! ## Plain values -/

/-- No string in a list is kept only as it is spelled. -/
theorem isPlain_ofTexts (texts : List String) : (ofTexts texts).isPlain = true := by
  rw [ofTexts, isPlain]
  induction texts with
  | nil => rfl
  | cons s texts ih => simpa [arePlain, isPlain] using ih

/-- The members that a table becomes are as plain as its entries. -/
theorem havePlainValues_mapEntries {α : Type} {toJson : α → Json}
    (hplain : ∀ value, (toJson value).isPlain = true) (m : NameMap α) :
    havePlainValues (m.mapEntries fun _ value => toJson value).entries = true := by
  have hmembers : ∀ es : List (String × α),
      havePlainValues (es.map fun e => (e.1, toJson e.2)) = true := by
    intro es
    induction es with
    | nil => rfl
    | cons e es ih => simpa [havePlainValues, hplain] using ih
  exact hmembers m.entries

/-! ## Spelling of values -/

/-- A way to spell values and to read them. -/
structure Codec where
  print : Json → String
  parse? : String → Option Json

namespace Codec

/-- Plain values are read back from what they were spelled as, with a line end behind it. -/
def IsFaithful (codec : Codec) : Prop :=
  ∀ j : Json, j.isPlain = true → codec.parse? (codec.print j ++ "\n") = some j

/-- The way in which records are spelled and read. -/
def standard : Codec := ⟨Json.print, Json.parse?⟩

/-- The printer and the parser of this library are inverse to each other on plain values. -/
theorem isFaithful_standard : standard.IsFaithful :=
  fun _ hplain => Json.parse?_print hplain (by simp [Text.isLayout])

end Codec

end Json

/-! ## Records -/

/-- A block goes on with the value that it was given.  This is about the bind of blocks and not
about {lit}`Option.bind`, whose congruence rule visits the rest of a block once for every bind
around it. -/
theorem some_bind {α β : Type} (a : α) (rest : α → Option β) : (some a >>= rest) = rest a :=
  rfl

namespace SourceFile

/-- The members of a distribution file as a value. -/
def members (f : SourceFile) : List (String × Json) :=
  [("uris", .ofTexts f.uris), ("size", .natural f.size.toNat), ("integrity", .text f.integrity),
    ("SHA256", .text f.sha256), ("SHA512", .text f.sha512)]

/-- Every field of a source file survives its written form. -/
theorem ofJson?_toJson (f : SourceFile) : ofJson? f.toJson = some f := by
  have hnames : (f.members.map Prod.fst).Sublist memberNames := .refl _
  obtain ⟨fields, hfields, hget⟩ := Json.get?_of_fields (by decide) hnames
  have htoJson : f.toJson = .object f.members := rfl
  rw [ofJson?, htoJson, hfields]
  simp only [hget, members, NameMap.lookup_cons_eq, String.reduceEq, ↓reduceIte, Json.text?,
    Json.texts?_ofTexts, Json.size?_natural_toNat, some_bind, Option.pure_def]

theorem isPlain_toJson (f : SourceFile) : f.toJson.isPlain = true := by
  simp [toJson, Json.isPlain, Json.havePlainValues, Json.isPlain_ofTexts]

end SourceFile

namespace Record

/-- The members of a record as a value. -/
def members (r : Record) : List (String × Json) :=
  [("name", .text r.name), ("mainSlot", .text r.mainSlot), ("ebuildPath", .text r.ebuildPath),
    ("version", .text r.version), ("buildDeps", .ofTexts r.buildDependencies),
    ("localSrc", .ofTexts r.localSources), ("runtimeDeps", .ofTexts r.runtimeDependencies),
    ("srcUris", .object (r.sourceFiles.mapEntries fun _ file => file.toJson).entries)] ++
  if r.postDependencies.isEmpty then [] else [("postDeps", .ofTexts r.postDependencies)]

/-- The members of a written record stand in the order of the fields, with those left out that hold
their default. -/
theorem map_fst_members_sublist (r : Record) :
    (r.members.map Prod.fst).Sublist memberNames := by
  cases hpost : r.postDependencies with
  | nil => simp [members, hpost, memberNames]
  | cons label labels => simp [members, hpost, memberNames]

/-- A missing list of post-dependencies is the empty one that was left out. -/
theorem texts?_postDependencies (r : Record) :
    ((r.members.lookup "postDeps").getD (.array [])).texts? = some r.postDependencies := by
  cases hpost : r.postDependencies with
  | nil => simp [members, hpost, NameMap.lookup_cons_eq, Json.texts?]
  | cons label labels => simp [members, hpost, NameMap.lookup_cons_eq]

theorem ofJson?_toJson (r : Record) : ofJson? r.toJson = some r := by
  have hfiles := Json.table?_object SourceFile.ofJson?_toJson r.sourceFiles
  have hpost := r.texts?_postDependencies
  obtain ⟨fields, hfields, hget⟩ :=
    Json.get?_of_fields (by decide) r.map_fst_members_sublist
  have htoJson : r.toJson = .object r.members := rfl
  rw [ofJson?, htoJson, hfields]
  simp only [hget, hpost, some_bind]
  simp only [members, List.cons_append, NameMap.lookup_cons_eq, String.reduceEq, ↓reduceIte,
    Json.text?, Json.texts?_ofTexts, hfiles, some_bind, Option.pure_def]

theorem isPlain_toJson (r : Record) : r.toJson.isPlain = true := by
  have hfiles := Json.havePlainValues_mapEntries SourceFile.isPlain_toJson r.sourceFiles
  cases hpost : r.postDependencies <;>
    simp [toJson, hpost, Json.isPlain, Json.havePlainValues, Json.isPlain_ofTexts, hfiles]

end Record

namespace Records

theorem ofJson?_toJson (records : Records) : ofJson? (toJson records) = some records :=
  Json.table?_object Record.ofJson?_toJson records

theorem isPlain_toJson (records : Records) : (toJson records).isPlain = true := by
  rw [toJson, Json.isPlain]
  exact Json.havePlainValues_mapEntries Record.isPlain_toJson records

/-- The tree with records written to a file, with values spelled in some way. -/
def saveAs (codec : Json.Codec) (tree : FileTree) (path : Path) (records : Records) :
    Except Error FileTree :=
  (tree.writeText path (codec.print (toJson records) ++ "\n")).mapError (.file path)

/-- The records in a file, with values read in some way. -/
def loadAs (codec : Json.Codec) (tree : FileTree) (path : Path) : Except Error Records :=
  match tree.readText path with
  | .error fault => .error (.file path fault)
  | .ok s =>
    match (codec.parse? s).bind ofJson? with
    | some records => .ok records
    | none => .error .records

theorem saveAs_standard : saveAs .standard = save := rfl

theorem loadAs_standard : loadAs .standard = load := rfl

/-- Saved records are loaded as they were in whatever way values are spelled and read, if only
what was spelled is read back. -/
theorem loadAs_of_saveAs {codec : Json.Codec} (hcodec : codec.IsFaithful) {tree tree' : FileTree}
    {path : Path} {records : Records} (h : saveAs codec tree path records = .ok tree') :
    loadAs codec tree' path = .ok records := by
  have hread : tree'.readText path = .ok (codec.print (toJson records) ++ "\n") :=
    FileTree.readText_writeText (mapError_eq_ok_iff.1 h)
  simp [loadAs, hread, hcodec _ (isPlain_toJson records), ofJson?_toJson]

/-- Saved records are loaded as they were. -/
theorem load_of_save {tree tree' : FileTree} {path : Path} {records : Records}
    (h : save tree path records = .ok tree') : load tree' path = .ok records := by
  rw [← saveAs_standard] at h
  rw [← loadAs_standard]
  exact loadAs_of_saveAs Json.Codec.isFaithful_standard h

/-- Two records with characters that are escaped, the greatest size, and one with
post-dependencies. -/
def sampleRecords : Records :=
  let file : SourceFile := ⟨["mirror://a", "x\"\\\n\x01é😀"], 18446744073709551615, "", "0", "1"⟩
  NameMap.ofList [
    ("//a:0", ⟨"a", "0", "a-1.ebuild", "1", ["//b:0"], [], [], .ofList [("a\t.tar", file)], []⟩),
    ("//b:0", ⟨"b", "0", "b-2.ebuild", "2", [], ["x"], ["//a:0"], .empty, ["//a:0", "//c:0"]⟩)]

/-- A tree without files. -/
def bareTree : FileTree :=
  ⟨.directory [], ⟨"/"⟩⟩

def samplePath : Path :=
  ⟨"/deps.json"⟩

/-- The tree with the sample in its file. -/
def savedTree : FileTree :=
  bareTree.place ["deps.json"] (.file (.text (print sampleRecords)))

/-- The sample is saved in a tree without files and loaded again. -/
theorem load_savedTree :
    save bareTree samplePath sampleRecords = .ok savedTree ∧
      load savedTree samplePath = .ok sampleRecords := by
  have htrail : bareTree.trailOf .creatable samplePath =
      .ok [("deps.json", .file (.text ""))] := by rfl
  have hsave : save bareTree samplePath sampleRecords = .ok savedTree := by
    rw [save, FileTree.writeText, htrail]
    rfl
  exact ⟨hsave, load_of_save hsave⟩

end Records
end EbuildGraph
