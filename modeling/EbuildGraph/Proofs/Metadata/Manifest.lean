import EbuildGraph.Metadata.Manifest
import EbuildGraph.Proofs.Text.Percent

/-!
# What a manifest says of a file

The rows of a manifest that count are those for distribution files with a digest that an integrity
string can be made of.  Each stands for the file that its name field decodes to, and of the rows
for one file the last counts.

Main definitions:

- {lit}`Manifest.rows`: the rows of a text that count, in order.
- {lit}`DistRow.IsLastFor`: the row that counts for a file.
- {lit}`DistRow.Describes`: whether an entry has the size and the digests of a row.

Main results:

- Theorem {lit}`DistRow.standsFor_nameField_iff`: which rows stand for the file that they spell.
- Theorem {lit}`Manifest.exists_get?_iff`: which files a manifest has.
- Theorem {lit}`Manifest.exists_last_of_get?`: the entry of a file is that of its last row.
-/

namespace EbuildGraph

/-- The fields of a line for a distribution file. -/
structure DistRow where
  nameField : String
  sizeField : String
  digests : NameMap String
deriving DecidableEq

namespace DistRow

/-- The fields of a line, if it is for a distribution file and has a size. -/
def ofLine? (line : String) : Option DistRow :=
  match Text.words line with
  | "DIST" :: nameField :: sizeField :: digestFields =>
    some ⟨nameField, sizeField, NameMap.ofList (Text.pairUp digestFields)⟩
  | _ => none

/-- Whether a row has a digest that an integrity string can be made of. -/
def isChecked (row : DistRow) : Bool :=
  Manifest.integrityAlgorithms.any fun hash => row.digests.contains hash

/-- A row stands for the file that its name field decodes to. -/
def StandsFor (row : DistRow) (name : String) : Prop :=
  Text.decodePercent row.nameField = .ok name

instance (row : DistRow) (name : String) : Decidable (row.StandsFor name) :=
  inferInstanceAs (Decidable (Text.decodePercent row.nameField = .ok name))

/-- The digest of a row whose algorithm is the most preferred. -/
def IsPreferred (row : DistRow) (hash digits : String) : Prop :=
  ∃ before after, Manifest.integrityAlgorithms = before ++ hash :: after ∧
    row.digests.get? hash = some digits ∧ ∀ other ∈ before, row.digests.get? other = none

/-- Whether an entry has the size and the digests of a row. -/
structure Describes (row : DistRow) (file : DistFile) : Prop where
  size : Text.parseSize row.sizeField = .ok file.size
  integrity : ∃ hash digits, row.IsPreferred hash digits ∧
    EbuildGraph.integrity hash digits = .ok file.integrity
  sha256 : file.sha256 = (row.digests.get? "SHA256").getD ""
  sha512 : file.sha512 = (row.digests.get? "SHA512").getD ""

/-- Among rows, one is the last that stands for a file. -/
def IsLastFor (row : DistRow) (name : String) (rows : List DistRow) : Prop :=
  ∃ before after, rows = before ++ row :: after ∧ row.StandsFor name ∧
    ∀ later ∈ after, ¬later.StandsFor name

/-- A row stands for one file only. -/
theorem StandsFor.unique {row : DistRow} {name other : String} (h : row.StandsFor name)
    (hother : row.StandsFor other) : name = other :=
  Except.ok.inj (h.symm.trans hother)

/-- A row stands for the file that its name field spells unless an escape is in the field. -/
theorem standsFor_nameField_iff {row : DistRow} :
    row.StandsFor row.nameField ↔ ¬Text.HasEscape row.nameField :=
  Text.decodePercent_eq_self_iff

/-- The most preferred digest is the first that is found in the order of preference. -/
theorem isPreferred_iff {row : DistRow} {hash digits : String} :
    row.IsPreferred hash digits ↔
      (Manifest.integrityAlgorithms.findSome? fun h => (row.digests.get? h).map fun d => (h, d)) =
        some (hash, digits) := by
  rw [List.findSome?_eq_some_iff]
  simp only [Option.map_eq_some_iff, Option.map_eq_none_iff, Prod.mk.injEq]
  constructor
  · rintro ⟨before, after, heq, hdigits, hbefore⟩
    exact ⟨before, hash, after, heq, ⟨digits, hdigits, rfl, rfl⟩, hbefore⟩
  · rintro ⟨before, _, after, heq, ⟨_, hdigits, rfl, rfl⟩, hbefore⟩
    exact ⟨before, after, heq, hdigits, hbefore⟩

/-- A row is not checked when none of the algorithms has a digest. -/
theorem isChecked_eq_false_iff {row : DistRow} :
    row.isChecked = false ↔
      (Manifest.integrityAlgorithms.findSome? fun h => (row.digests.get? h).map fun d => (h, d)) =
        none := by
  simp [isChecked, NameMap.contains]

end DistRow

namespace Manifest

/-- The row of a line, if it counts. -/
def row? (line : String) : Option DistRow :=
  (DistRow.ofLine? line).filter DistRow.isChecked

/-- The rows of a text that count, in order. -/
def rows (text : String) : List DistRow :=
  (Text.lines text).filterMap row?

/-! ## Reading one line -/

/-- A line with the words of a row is one if it has a checksum that counts. -/
theorem row?_of_words {line nameField sizeField : String} {digestFields : List String}
    {row : DistRow} (hwords : Text.words line = "DIST" :: nameField :: sizeField :: digestFields)
    (hrow : row = ⟨nameField, sizeField, NameMap.ofList (Text.pairUp digestFields)⟩) :
    row? line = if row.isChecked then some row else none := by
  have hline : DistRow.ofLine? line = some row := by
    simp only [DistRow.ofLine?, hwords, hrow]
  rw [row?, hline, Option.filter_some]

/-- A line with other words is no row. -/
theorem row?_of_other {line : String}
    (h : ∀ nameField sizeField digestFields,
      Text.words line ≠ "DIST" :: nameField :: sizeField :: digestFields) : row? line = none := by
  have hline : DistRow.ofLine? line = none := by
    unfold DistRow.ofLine?
    split
    · next hwords => exact absurd hwords (h _ _ _)
    · rfl
  rw [row?, hline, Option.filter_none]

/-- What a line is read as: nothing if it does not count, and otherwise the name and the entry of
its row. -/
theorem parseRow_cases {number : Nat} {line : String} {result : Option (String × DistFile)}
    (h : parseRow number line = .ok result) :
    (row? line = none ∧ result = none) ∨
      ∃ row name file, row? line = some row ∧ result = some (name, file) ∧
        row.StandsFor name ∧ row.Describes file := by
  unfold parseRow at h
  split at h
  case h_2 hother =>
    exact Or.inl ⟨row?_of_other hother, (Except.ok.inj h).symm⟩
  case h_1 nameField sizeField digestFields hwords =>
  obtain ⟨row, hrow⟩ : ∃ row : DistRow,
      row = ⟨nameField, sizeField, NameMap.ofList (Text.pairUp digestFields)⟩ := ⟨_, rfl⟩
  have hline := row?_of_words hwords hrow
  -- The steps of the reader: the name, the size, the preferred digest, and its bytes.
  split at h
  case h_1 => cases h
  case h_2 name hname =>
  split at h
  case h_1 => cases h
  case h_2 size hsize =>
  dsimp only at h
  split at h
  case h_1 hnone =>
    have hchecked : row.isChecked = false := by rwa [DistRow.isChecked_eq_false_iff, hrow]
    exact Or.inl ⟨by simp [hline, hchecked], (Except.ok.inj h).symm⟩
  case h_2 hash digits hsome =>
  split at h
  case h_1 => cases h
  case h_2 text htext =>
  have hpreferred : row.IsPreferred hash digits := by rwa [DistRow.isPreferred_iff, hrow]
  have hchecked : row.isChecked = true := by
    rw [← Bool.not_eq_false, DistRow.isChecked_eq_false_iff, hrow, hsome]
    exact Option.some_ne_none _
  refine Or.inr ⟨row, name, _, by simp [hline, hchecked], (Except.ok.inj h).symm,
    by rwa [DistRow.StandsFor, hrow], ?_⟩
  exact ⟨by rwa [hrow], ⟨hash, digits, hpreferred, htext⟩, by rw [hrow], by rw [hrow]⟩

/-! ## Reading all lines -/

/-- Of the rows of further lines the last one for a file counts, and without any the file has the
entry that it had before. -/
theorem get?_of_parseRows {number : Nat} {files result : NameMap DistFile} {lines : List String}
    (h : parseRows number files lines = .ok result) (name : String) :
    (∃ (row : DistRow) (file : DistFile), row.IsLastFor name (lines.filterMap row?) ∧
        row.Describes file ∧ result.get? name = some file) ∨
      (∀ row ∈ lines.filterMap row?, ¬row.StandsFor name) ∧ result.get? name = files.get? name := by
  induction lines generalizing number files with
  | nil =>
    obtain rfl := Except.ok.inj h
    exact Or.inr ⟨nofun, rfl⟩
  | cons line lines ih =>
    unfold parseRows at h
    split at h
    case h_1 => cases h
    case h_2 hline =>
      have hrow : row? line = none := by simpa using parseRow_cases hline
      rw [List.filterMap_cons_none hrow]
      exact ih h
    case h_3 other entry hline =>
      obtain ⟨row, _, _, hrow, heq, hstands, hdescribes⟩ :=
        (parseRow_cases hline).resolve_left (by simp)
      cases heq
      rw [List.filterMap_cons_some hrow]
      rcases ih h with ⟨last, file, ⟨before, after, hrows, hlast⟩, hfile⟩ | ⟨hnone, hget⟩
      · exact Or.inl ⟨last, file, ⟨row :: before, after, by rw [hrows, List.cons_append], hlast⟩,
          hfile⟩
      · rw [NameMap.get?_insert] at hget
        by_cases hname : name = other
        · rw [if_pos hname] at hget
          exact Or.inl ⟨row, entry, ⟨[], _, rfl, hname ▸ hstands, hnone⟩, hdescribes, hget⟩
        · rw [if_neg hname] at hget
          refine Or.inr ⟨List.forall_mem_cons.2 ⟨fun hthis => ?_, hnone⟩, hget⟩
          exact hname (hthis.unique hstands)

section

variable {path : Path} {text : String} {manifest : Manifest}

/-- A file has the entry of its last row, and a file without rows is missing. -/
theorem exists_last_or_missing (h : parse path text = .ok manifest) (name : String) :
    (∃ (row : DistRow) (file : DistFile), row.IsLastFor name (rows text) ∧
        row.Describes file ∧ manifest.get? name = some file) ∨
      (∀ row ∈ rows text, ¬row.StandsFor name) ∧ manifest.get? name = none := by
  unfold parse at h
  split at h
  · cases h
  · next files hfiles =>
    obtain rfl := Except.ok.inj h
    exact get?_of_parseRows hfiles name

/-- A manifest has the files that rows stand for. -/
theorem exists_get?_iff (h : parse path text = .ok manifest) (name : String) :
    (∃ file, manifest.get? name = some file) ↔ ∃ row ∈ rows text, row.StandsFor name := by
  rcases exists_last_or_missing h name with ⟨row, file, hlast, _, hfile⟩ | ⟨hnone, hmissing⟩
  · obtain ⟨before, after, hrows, hstands, _⟩ := hlast
    have hrow : row ∈ rows text := hrows ▸ List.mem_append_right before List.mem_cons_self
    exact iff_of_true ⟨file, hfile⟩ ⟨row, hrow, hstands⟩
  · rw [hmissing]
    refine iff_of_false nofun ?_
    rintro ⟨row, hrow, hstands⟩
    exact hnone row hrow hstands

/-- In a manifest a file has the size and the digests of the last row that stands for it. -/
theorem exists_last_of_get? (h : parse path text = .ok manifest) {name : String}
    {file : DistFile} (hfile : manifest.get? name = some file) :
    ∃ row : DistRow, row.IsLastFor name (rows text) ∧ row.Describes file := by
  rcases exists_last_or_missing h name with ⟨row, other, hlast, hdescribes, hother⟩ | ⟨_, hmissing⟩
  · obtain rfl := Option.some.inj (hfile.symm.trans hother)
    exact ⟨row, hlast, hdescribes⟩
  · rw [hmissing] at hfile
    cases hfile

end

end Manifest
end EbuildGraph
