import EbuildGraph.Package.SourceFile
import EbuildGraph.Proofs.Metadata.Manifest

/-!
# Files of a package and their rows

The files that a package is built from are looked up in the manifest beside its ebuild.  Both name
them alike, but for the escapes that a manifest may spell them with and a source address may not:
an address with an escape in its last part asks for a file of just that name, which a row can only
stand for that escapes its percent sign.

Main results:

- Theorem {lit}`Package.sourceFiles_eq`: the files are looked up one after another.
- Theorem {lit}`Package.exists_lookUps_iff`: they are found when rows stand for all of them.
- Theorem {lit}`Package.sourceFiles_match_rows`: when files are found, and what is found of each.
-/

namespace EbuildGraph
namespace SourceFile

/-- Looks a file up in a manifest. -/
def lookUp (manifest : Manifest) (download : String × List String) :
    Except Error (String × SourceFile) :=
  match manifest.get? download.1 with
  | none => .error (.manifest manifest.path (.missingFile download.1))
  | some entry => .ok (download.1, ofEntry download.2 entry)

/-- Files are looked up one after another. -/
theorem lookUpAll_eq (manifest : Manifest) (downloads : List (String × List String)) :
    lookUpAll manifest downloads = downloads.mapM (lookUp manifest) := by
  induction downloads with
  | nil => rfl
  | cons download rest ih =>
    obtain ⟨name, uris⟩ := download
    rw [List.mapM_cons, lookUpAll, ← ih, lookUp]
    cases manifest.get? name with
    | none => rfl
    | some entry => cases lookUpAll manifest rest <;> rfl

/-- A file is found with its addresses and what the manifest says of its name. -/
theorem lookUp_eq_ok_iff {manifest : Manifest} {download : String × List String}
    {found : String × SourceFile} :
    lookUp manifest download = .ok found ↔
      found.1 = download.1 ∧ ∃ entry, manifest.get? download.1 = some entry ∧
        found.2 = ofEntry download.2 entry := by
  obtain ⟨name, file⟩ := found
  rw [lookUp]
  cases manifest.get? download.1 with
  | none => simp
  | some entry => simp [eq_comm]

end SourceFile

namespace Package

/-- The manifest beside an ebuild. -/
def manifestPath (p : Package) : Path :=
  (p.path.parent?.getD p.path).child "Manifest"

variable {tree : FileTree} {p : Package} {entries : List SourceUri.Entry}
  {files : NameMap (List String)} {text : String} {manifest : Manifest}

/-- The files are looked up one after another, in the order of their names. -/
theorem sourceFiles_eq
    (hentries : SourceUri.parse (Variables.value p.metadata "SRC_URI") = .ok entries)
    (hfiles : SourceUri.downloads entries p.useFlags = .ok files)
    (htext : tree.readText p.manifestPath = .ok text)
    (hmanifest : Manifest.parse p.manifestPath text = .ok manifest) :
    p.sourceFiles tree =
      (files.entries.mapM (SourceFile.lookUp manifest)).map NameMap.ofList := by
  have hload : Manifest.load tree (p.path.parent?.getD p.path) = .ok manifest := by
    rw [manifestPath] at htext hmanifest
    simp only [Manifest.load, htext, hmanifest]
  simp only [sourceFiles, hentries, hfiles, hload, bind, Except.bind, SourceFile.lookUpAll_eq]
  split
  · next hempty =>
    -- Without files there is nothing to look up, with a manifest as without one.
    rw [List.isEmpty_iff.1 hempty]
    rfl
  · cases files.entries.mapM (SourceFile.lookUp manifest) <;> rfl

/-- Files that are found have the names of the files that are looked up. -/
theorem map_fst_of_lookUps {downloads : List (String × List String)}
    {found : List (String × SourceFile)}
    (h : List.Forall₂ (fun d f => SourceFile.lookUp manifest d = .ok f) downloads found) :
    found.map Prod.fst = downloads.map Prod.fst := by
  induction h with
  | nil => rfl
  | cons hfirst _ ih =>
    rw [List.map_cons, List.map_cons, ih, (SourceFile.lookUp_eq_ok_iff.1 hfirst).1]

/-- What is found of a file is its addresses together with its entry. -/
theorem get?_of_lookUps {found : List (String × SourceFile)}
    (h : files.entries.mapM (SourceFile.lookUp manifest) = .ok found) {name : String}
    {file : SourceFile} :
    (NameMap.ofList found).get? name = some file ↔ ∃ uris entry, files.get? name = some uris ∧
      manifest.get? name = some entry ∧ file = SourceFile.ofEntry uris entry := by
  have hdistinct : found.Pairwise fun a b => a.1 ≠ b.1 := by
    have hentries := NameMap.ne_of_pairwise_lt files.sorted
    rw [← List.pairwise_map (f := Prod.fst)] at hentries ⊢
    rwa [map_fst_of_lookUps (mapM_eq_ok_iff.1 h)]
  rw [NameMap.get?_ofList_eq_some_iff hdistinct, mem_iff_of_mapM h]
  simp only [SourceFile.lookUp_eq_ok_iff, NameMap.get?_eq_some_iff]
  constructor
  · rintro ⟨⟨_, uris⟩, hmem, rfl, entry, hentry, hfile⟩
    exact ⟨uris, entry, hmem, hentry, hfile⟩
  · rintro ⟨uris, entry, hmem, hentry, hfile⟩
    exact ⟨(name, uris), hmem, rfl, entry, hentry, hfile⟩

/-- Files are found exactly when each has a row that stands for it. -/
theorem exists_lookUps_iff (hmanifest : Manifest.parse p.manifestPath text = .ok manifest) :
    (∃ found, files.entries.mapM (SourceFile.lookUp manifest) = .ok found) ↔
      ∀ name ∈ files.names, ∃ row ∈ Manifest.rows text, row.StandsFor name := by
  have hlookUp (download : String × List String) :
      (∃ found, SourceFile.lookUp manifest download = .ok found) ↔
        ∃ row ∈ Manifest.rows text, row.StandsFor download.1 := by
    rw [← Manifest.exists_get?_iff hmanifest]
    constructor
    · rintro ⟨found, hfound⟩
      obtain ⟨-, entry, hentry, -⟩ := SourceFile.lookUp_eq_ok_iff.1 hfound
      exact ⟨entry, hentry⟩
    · rintro ⟨entry, hentry⟩
      exact ⟨(download.1, _), SourceFile.lookUp_eq_ok_iff.2 ⟨rfl, entry, hentry, rfl⟩⟩
  rw [exists_mapM_eq_ok_iff, NameMap.names, List.forall_mem_map]
  exact forall₂_congr fun download _ => hlookUp download

/-- Files are found exactly when each has a row that counts and stands for it.  They are then the
files that the source addresses lead to, and each is found with its addresses and with the size and
the digests of the last row that stands for it.  A row stands for the file that it spells unless
its name field holds an escape. -/
theorem sourceFiles_match_rows
    (hentries : SourceUri.parse (Variables.value p.metadata "SRC_URI") = .ok entries)
    (hfiles : SourceUri.downloads entries p.useFlags = .ok files)
    (htext : tree.readText p.manifestPath = .ok text)
    (hmanifest : Manifest.parse p.manifestPath text = .ok manifest) :
    ((∃ found, p.sourceFiles tree = .ok found) ↔
      ∀ name ∈ files.names, ∃ row ∈ Manifest.rows text, row.StandsFor name) ∧
    (∀ found, p.sourceFiles tree = .ok found →
      (∀ name, name ∈ found.names ↔ name ∈ files.names) ∧
      ∀ name uris, files.get? name = some uris → ∃ (row : DistRow) (file : DistFile),
        row.IsLastFor name (Manifest.rows text) ∧ row.Describes file ∧
        found.get? name = some (SourceFile.ofEntry uris file)) ∧
    ∀ row ∈ Manifest.rows text,
      row.StandsFor row.nameField ↔ ¬Text.HasEscape row.nameField := by
  have hsource := sourceFiles_eq hentries hfiles htext hmanifest
  refine ⟨?_, ?_, fun row _ => DistRow.standsFor_nameField_iff⟩
  · rw [← exists_lookUps_iff hmanifest, hsource, exists_map_eq_ok_iff]
  · intro _ hfound
    rw [hsource] at hfound
    obtain ⟨found, hlookUps, rfl⟩ := map_eq_ok_iff.1 hfound
    have hentry (name : String) (hname : name ∈ files.names) :
        ∃ entry, manifest.get? name = some entry :=
      (Manifest.exists_get?_iff hmanifest name).2
        ((exists_lookUps_iff hmanifest).1 ⟨found, hlookUps⟩ name hname)
    constructor
    · intro name
      simp only [NameMap.mem_names_iff, get?_of_lookUps hlookUps]
      constructor
      · rintro ⟨_, uris, _, huris, _⟩
        exact ⟨uris, huris⟩
      · rintro ⟨uris, huris⟩
        obtain ⟨entry, hentry⟩ := hentry name (NameMap.mem_names_of_get? huris)
        exact ⟨_, uris, entry, huris, hentry, rfl⟩
    · intro name uris huris
      obtain ⟨entry, hentry⟩ := hentry name (NameMap.mem_names_of_get? huris)
      obtain ⟨row, hlast, hdescribes⟩ := Manifest.exists_last_of_get? hmanifest hentry
      exact ⟨row, entry, hlast, hdescribes,
        (get?_of_lookUps hlookUps).2 ⟨uris, entry, huris, hentry, rfl⟩⟩

/-- A package that is built from files at the given addresses. -/
def fetching (addresses : String) : Package where
  path := ⟨"/x/y/y-1.ebuild"⟩
  name := "x/y"
  version := default
  info := ⟨NameMap.ofList [("SRC_URI", addresses)], NameSet.empty⟩

/-- A repository in which that package has a manifest of the given text. -/
def withManifest (text : String) : FileTree where
  root := .directory [("x", .directory [("y", .directory [("Manifest", .file (.text text))])])]
  workingDirectory := ⟨"/"⟩

/-- A package with one file. -/
def sampleArchive : Package :=
  fetching "https://a.org/b+c.zip"

/-- Two rows for that file, of which the second spells its name with an escape. -/
def sampleRows : String :=
  "DIST b+c.zip 7 SHA256 0102\nDIST b%2Bc.zip 8 SHA256 0304\n"

/-- The file is found with what the last of its rows says, and the first row alone spells it. -/
theorem sourceFiles_match_sampleRows :
    (∃ found, sampleArchive.sourceFiles (withManifest sampleRows) = .ok found ∧
      ∃ (row : DistRow) (file : DistFile),
        row.IsLastFor "b+c.zip" (Manifest.rows sampleRows) ∧ row.Describes file ∧
        found.get? "b+c.zip" = some (SourceFile.ofEntry ["https://a.org/b+c.zip"] file)) ∧
    ∀ row ∈ Manifest.rows sampleRows,
      row.StandsFor row.nameField ↔ ¬Text.HasEscape row.nameField := by
  have hentries : SourceUri.parse (Variables.value sampleArchive.metadata "SRC_URI") =
      .ok [.uri "https://a.org/b+c.zip" none] := rfl
  have hfiles : SourceUri.downloads [.uri "https://a.org/b+c.zip" none] sampleArchive.useFlags =
      .ok (NameMap.ofList [("b+c.zip", ["https://a.org/b+c.zip"])]) := rfl
  have htext : (withManifest sampleRows).readText sampleArchive.manifestPath = .ok sampleRows := rfl
  have hmanifest : Manifest.parse sampleArchive.manifestPath sampleRows =
      .ok ⟨⟨"/x/y/Manifest"⟩, NameMap.ofList [("b+c.zip", ⟨8, "sha256-AwQ=", "0304", ""⟩)]⟩ :=
    toOption_eq_some_iff.1 (by decide +kernel)
  obtain ⟨hfound, hrows, hspelled⟩ := sourceFiles_match_rows hentries hfiles htext hmanifest
  obtain ⟨found, hresult⟩ := hfound.2 (by decide +kernel)
  exact ⟨⟨found, hresult, (hrows found hresult).2 "b+c.zip" _ rfl⟩, hspelled⟩

/-- A package whose file has an escape in its name. -/
def escapedArchive : Package :=
  fetching "https://a.org/b%2Bc.zip"

/-- A row that spells that name. -/
def escapedRow : String :=
  "DIST b%2Bc.zip 7 SHA256 0102\n"

/-- Escapes are read in rows and not in addresses: a file is missing although a row spells it, and
a file that a row spells has the size and the digest of a later row that spells another name. -/
theorem sourceFiles_read_escapes_in_rows :
    (∃ entries files manifest,
      SourceUri.parse (Variables.value escapedArchive.metadata "SRC_URI") = .ok entries ∧
      SourceUri.downloads entries escapedArchive.useFlags = .ok files ∧
      (withManifest escapedRow).readText escapedArchive.manifestPath = .ok escapedRow ∧
      Manifest.parse escapedArchive.manifestPath escapedRow = .ok manifest ∧
      (∀ name ∈ files.names, ∃ row ∈ Manifest.rows escapedRow, row.nameField = name) ∧
      escapedArchive.sourceFiles (withManifest escapedRow) =
        .error (.manifest ⟨"/x/y/Manifest"⟩ (.missingFile "b%2Bc.zip"))) ∧
    ((Manifest.rows sampleRows).map fun row => (row.nameField, row.sizeField)) =
      [("b+c.zip", "7"), ("b%2Bc.zip", "8")] ∧
    sampleArchive.sourceFiles (withManifest sampleRows) =
      .ok (NameMap.ofList
        [("b+c.zip", ⟨["https://a.org/b+c.zip"], 8, "sha256-AwQ=", "0304", ""⟩)]) := by
  refine ⟨⟨[.uri "https://a.org/b%2Bc.zip" none],
    NameMap.ofList [("b%2Bc.zip", ["https://a.org/b%2Bc.zip"])],
    ⟨⟨"/x/y/Manifest"⟩, NameMap.ofList [("b+c.zip", ⟨7, "sha256-AQI=", "0102", ""⟩)]⟩,
    rfl, rfl, rfl, ?_, ?_, ?_⟩, ?_, ?_⟩
  · exact toOption_eq_some_iff.1 (by decide +kernel)
  · decide +kernel
  · decide +kernel
  · decide +kernel
  · exact toOption_eq_some_iff.1 (by decide +kernel)

end Package
end EbuildGraph
