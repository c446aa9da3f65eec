import EbuildGraph.Record.Basic

/-!
# Sources nested in others

The label of a source directory does not cover directories below it that have labels of
their own, so a record that lists the one has to list the others as well.  The directories of
all listed sources are looked through in order.  Those below a directory stand right behind
it, mixed only with siblings whose names begin with its own, so looking on from a directory
may stop at the first one that does not begin with it.

Main definitions:

- {lit}`Records.nestedBehind`: the directories behind another that lie below it.
- {lit}`Records.additions`: which label gains which source.
- {lit}`Records.addNestedSources`: every record with the listed sources below its own.
-/

namespace EbuildGraph
namespace Records

/-- What labels of sources end in. -/
def sourceEnding : String := ":src"

/-- The directory of a source label. -/
def sourceDirectory (label : String) : String :=
  (Text.dropEnd? sourceEnding label).getD label

/-- The directories of all sources, each with the label of the record that lists it. -/
def listedSources (records : Records) : List (String × String) :=
  records.entries.flatMap fun e =>
    e.2.localSources.map fun source => (sourceDirectory source, e.1)

/-- The labels of the records that list a source, by its directory. -/
def sourceOwners (records : Records) : NameMap (List String) :=
  NameMap.ofPairs records.listedSources

/-- Directories whose subdirectories are not part of them. -/
def separateDirectories : List String := ["//platform2"]

/-- Of the directories behind another those that lie below it.  A sibling such as
{lit}`foo-bar` behind {lit}`foo` is passed over, and the first directory that does not begin
with the name ends the search. -/
def nestedBehind (parent : String) : List String → List String
  | [] => []
  | child :: behind =>
    match parent.toList.isPrefixOf? child.toList with
    | none => []
    | some ('/' :: _) => child :: nestedBehind parent behind
    | some _ => nestedBehind parent behind

/-- Which label gains which source: the owners of each directory gain those below it. -/
def additions : List (String × List String) → List (String × String)
  | [] => []
  | (parent, owners) :: behind =>
    let nested :=
      if separateDirectories.contains parent then []
      else nestedBehind parent (behind.map Prod.fst)
    (nested.flatMap fun child => owners.map fun owner => (owner, child ++ sourceEnding)) ++
      additions behind

/-- Sources with one more, sorted again, unless it is among them. -/
def addSource (sources : List String) (source : String) : List String :=
  if sources.contains source then sources else (sources ++ [source]).mergeSort

/-- The records with a source added to that of a label. -/
def addSourceTo (records : Records) (label source : String) : Records :=
  match records.get? label with
  | none => records
  | some record =>
    records.insert label { record with localSources := addSource record.localSources source }

/-- Every record with the sources, listed by any record, that are nested in its own. -/
def addNestedSources (records : Records) : Records :=
  (additions records.sourceOwners.entries).foldl
    (fun acc addition => acc.addSourceTo addition.1 addition.2) records

end Records
end EbuildGraph
