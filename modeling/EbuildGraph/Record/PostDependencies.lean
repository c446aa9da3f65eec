import EbuildGraph.Record.Basic

/-!
# Post-dependencies of everything needed at runtime

A package that needs another at runtime also needs the post-dependencies of that one,
although it never names them.  They are collected depth first.  The records may need each
other in circles: a label adds nothing when it is met again on the path that leads to it,
and what was collected past such a place is incomplete.  Complete collections are kept, so
that no later one has to go that way again.

Main definitions:

- {lit}`Records.collect`: the post-dependencies of a label and all it needs at runtime.
- {lit}`Records.propagate`: every record with all post-dependencies that it leads to.
-/

namespace EbuildGraph

/-- Labels collected along a path, and whether none had to be left out. -/
structure Collection where
  labels : NameSet
  complete : Bool
deriving DecidableEq

namespace Collection

/-- Nothing, and nothing left out. -/
def empty : Collection := ⟨NameSet.empty, true⟩

/-- Nothing, because the path has been here before. -/
def cut : Collection := ⟨NameSet.empty, false⟩

/-- What two collections hold together. -/
def merge (c d : Collection) : Collection :=
  ⟨c.labels.insertAll d.labels.toList, c.complete && d.complete⟩

end Collection

namespace Records

/-- The labels of records that are not on a path. -/
def offPath (records : Records) (path : NameSet) : List String :=
  records.names.filter fun label => !path.contains label

/-- A path that is extended by a record has fewer records off it. -/
theorem length_offPath_insert_lt {records : Records} {path : NameSet} {label : String}
    {record : Record} (hlabel : records.get? label = some record)
    (hpath : ¬path.contains label = true) :
    (records.offPath (path.insert label)).length < (records.offPath path).length := by
  have hsub : records.offPath (path.insert label) =
      (records.offPath path).filter (· != label) := by
    simp only [offPath, List.filter_filter]
    apply List.filter_congr
    intro other _
    rw [Bool.eq_iff_iff]
    simp [← Bool.not_eq_true]
  have hmem : label ∈ records.offPath path :=
    List.mem_filter.2 ⟨NameMap.mem_names_of_get? hlabel, by simp [hpath]⟩
  rw [hsub]
  exact List.length_filter_lt_length_iff_exists.2 ⟨label, hmem, by simp⟩

mutual

/-- The post-dependencies of a label and of all it needs at runtime, off the path that
leads to it.  Complete collections that were kept are taken as they are. -/
def collect (records : Records) (label : String) (path : NameSet) (kept : NameMap NameSet) :
    Collection × NameMap NameSet :=
  match kept.get? label with
  | some labels => (⟨labels, true⟩, kept)
  | none =>
    match _hlabel : records.get? label with
    | none => (.empty, kept)
    | some record =>
      if _hpath : path.contains label = true then (.cut, kept)
      else
        let (below, kept) :=
          collectAll records record.runtimeDependencies (path.insert label) kept
        let found := Collection.merge ⟨NameSet.ofList record.postDependencies, true⟩ below
        (found, if found.complete then kept.insert label found.labels else kept)
termination_by ((records.offPath path).length, 0)
decreasing_by exact Prod.Lex.left _ _ (length_offPath_insert_lt _hlabel _hpath)

/-- The post-dependencies of several labels and of all they need at runtime. -/
def collectAll (records : Records) (labels : List String) (path : NameSet)
    (kept : NameMap NameSet) : Collection × NameMap NameSet :=
  match labels with
  | [] => (.empty, kept)
  | label :: rest =>
    let (first, kept) := collect records label path kept
    let (others, kept) := collectAll records rest path kept
    (first.merge others, kept)
termination_by ((records.offPath path).length, labels.length + 1)

end

/-- Collects from each of the labels in turn. -/
def collectEach (records : Records) : List String → NameMap NameSet → NameMap NameSet
  | [], _ => NameMap.empty
  | label :: rest, kept =>
    let (found, kept) := collect records label NameSet.empty kept
    (collectEach records rest kept).insert label found.labels

/-- Every record with all post-dependencies that it leads to, sorted and without itself. -/
def propagate (records : Records) : Records :=
  let collected := collectEach records records.names NameMap.empty
  records.mapEntries fun label record =>
    let labels := (collected.get? label).getD NameSet.empty
    { record with postDependencies := (labels.erase label).toList }

end Records
end EbuildGraph
