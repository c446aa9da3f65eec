import EbuildGraph.Proofs.Record.NestedSources

/-!
# Completed sources

Where all sources of records are labels of directories, a record gains the listed sources below
its own and nothing else.  What it gains was listed before, and what is nested in a source that it
gained is nested in one that it had, so a second pass finds nothing to add.

Main definitions:

- {lit}`IsNestedSource`: a source that a record has to list as well.
- {lit}`Completes`: a list of sources to which just the missing ones were added.

Main results:

- Theorem {lit}`completes_withNested`: what the sources nested in others add to them.
- Theorem {lit}`addNestedSources_completes`: every record gains exactly the sources nested in its
  own, and gains nothing when this is done again.
-/

namespace EbuildGraph
namespace Records

/-! ## What records gain -/

/-- All sources of records are labels of directories. -/
def HaveSourceLabels (records : Records) : Prop :=
  ∀ label record, records.get? label = some record →
    ∀ source ∈ record.localSources, ∃ directory, source = directory ++ ":src"

/-- A source that a record has to list as well: some record lists it, and it lies below the
directory of one of the record's own sources, other than one whose subdirectories are no part of
it. -/
def IsNestedSource (records : Records) (record : Record) (source : String) : Prop :=
  ∃ parent child, source = child ++ ":src" ∧
    (∃ label other, records.get? label = some other ∧ source ∈ other.localSources) ∧
    parent ++ ":src" ∈ record.localSources ∧ parent ≠ "//platform2" ∧
    (parent ++ "/").toList <+: child.toList

/-- Sources to which just those to be gained were added: none of these is missing, none was added
twice or listed before, and the sources are in order if any were added. -/
structure Completes (gained : String → Prop) (before after : List String) : Prop where
  mem_iff : ∀ source, source ∈ after ↔ source ∈ before ∨ gained source
  added : ∃ new, new.Nodup ∧ (∀ source ∈ new, source ∉ before) ∧ after.Perm (before ++ new)
  sorted : after ≠ before → after.Pairwise fun a b => a ≤ b
  unchanged : (∀ source, gained source → source ∈ before) → after = before

/-- The list that is written for one package holds what was there and the sources nested in it,
sorted wherever something was added. -/
theorem completes_withNested (directories : NameSet) (sources : List String) :
    Completes (· ∈ sources.flatMap (nestedIn directories)) sources
      (withNested directories sources) := by
  have hnew (source : String) :
      source ∈ (NameSet.ofList (sources.flatMap (nestedIn directories))).toList.filter
        (fun source => !sources.contains source) ↔
        source ∈ sources.flatMap (nestedIn directories) ∧ source ∉ sources := by
    rw [List.mem_filter, ← NameSet.mem_iff_mem_toList, NameSet.mem_ofList]
    simp
  unfold withNested
  dsimp only
  refine ⟨fun source => ?_, ⟨_, ?_, fun source h => ((hnew source).1 h).2, extended_perm _ _⟩,
    fun hchanged => ?_, fun hlisted => ?_⟩
  · rw [mem_extended_iff, hnew]
    by_cases hmem : source ∈ sources <;> simp [hmem]
  · exact (nodup_of_pairwise_lt (NameSet.sorted _)).filter _
  · unfold extended at hchanged ⊢
    split
    · next hempty => exact absurd (if_pos hempty) hchanged
    · exact pairwise_le_mergeSort _
  · have hnone := List.eq_nil_iff_forall_not_mem.2 fun source h =>
      ((hnew source).1 h).2 (hlisted source ((hnew source).1 h).1)
    rw [extended, hnone]
    rfl

/-- A source label names its directory in front of the ending. -/
theorem sourceDirectory_append (directory : String) :
    sourceDirectory (directory ++ ":src") = directory := by
  rw [sourceDirectory, sourceEnding, Text.dropEnd?_append]
  rfl

variable {records : Records} {record : Record} {label : String}

/-- The sources nested in those of a record are the ones that it gains. -/
theorem mem_nested_iff (h : records.HaveSourceLabels) (hrecord : records.get? label = some record)
    {source : String} :
    source ∈ record.localSources.flatMap (nestedIn (listedDirectories records)) ↔
      records.IsNestedSource record source := by
  have hlisted (child : String) : child ∈ listedDirectories records ↔
      ∃ label other, records.get? label = some other ∧ child ++ ":src" ∈ other.localSources := by
    rw [← mem_names_sourceOwners_iff, sourceOwners, NameMap.mem_names_ofPairs_iff]
    simp only [mem_listedSources_iff]
    constructor
    · rintro ⟨label, other, hother, own, hown, rfl⟩
      obtain ⟨directory, rfl⟩ := h label other hother own hown
      exact ⟨label, other, hother, by rwa [sourceDirectory_append]⟩
    · rintro ⟨label, other, hother, hown⟩
      exact ⟨label, other, hother, _, hown, sourceDirectory_append child⟩
  have hseparate (parent : String) :
      separateDirectories.contains parent = false ↔ parent ≠ "//platform2" := by
    simp [separateDirectories]
  simp only [List.mem_flatMap, mem_nestedIn_iff, hlisted, hseparate, liesBelow,
    List.isPrefixOf_iff_prefix]
  constructor
  · rintro ⟨own, hown, hparent, child, hchild, hbelow, rfl⟩
    obtain ⟨parent, rfl⟩ := h label record hrecord own hown
    rw [sourceDirectory_append] at hparent hbelow
    exact ⟨parent, child, rfl, hchild, hown, hparent, hbelow⟩
  · rintro ⟨parent, child, rfl, hchild, hown, hparent, hbelow⟩
    exact ⟨parent ++ ":src", hown, by rwa [sourceDirectory_append], child, hchild,
      by rwa [sourceDirectory_append], rfl⟩

/-- A record of the completed records is one of the records with its sources completed. -/
theorem exists_of_addNestedSources (h : records.HaveSourceLabels)
    (hrecord : records.get? label = some record) :
    ∃ sources, (addNestedSources records).get? label =
        some { record with localSources := sources } ∧
      Completes (records.IsNestedSource record) record.localSources sources := by
  refine ⟨_, by rw [get?_addNestedSources, hrecord]; rfl, ?_⟩
  have hcompletes := completes_withNested (listedDirectories records) record.localSources
  rwa [funext fun source => propext (mem_nested_iff h hrecord)] at hcompletes

/-- Nothing new is listed once sources were completed. -/
theorem listed_of_addNestedSources (h : records.HaveSourceLabels) {source : String}
    (hrecord : (addNestedSources records).get? label = some record)
    (hsource : source ∈ record.localSources) :
    ∃ other found, records.get? other = some found ∧ source ∈ found.localSources := by
  rw [get?_addNestedSources] at hrecord
  obtain ⟨found, hfound, rfl⟩ := Option.map_eq_some_iff.1 hrecord
  rcases ((completes_withNested _ _).mem_iff source).1 hsource with hown | hgained
  · exact ⟨label, found, hfound, hown⟩
  · obtain ⟨_, _, _, hlisted, _⟩ := (mem_nested_iff h hfound).1 hgained
    exact hlisted

/-- The labels that the pass adds are source labels again, which is what allows a second run. -/
theorem haveSourceLabels_addNestedSources (h : records.HaveSourceLabels) :
    (addNestedSources records).HaveSourceLabels := by
  intro label record hrecord source hsource
  obtain ⟨other, found, hfound, hlisted⟩ := listed_of_addNestedSources h hrecord hsource
  exact h other found hfound source hlisted

/-- A source below one that was gained lies below that in which the gained one is nested, so a
completed record has nothing more to gain. -/
theorem addNestedSources_idem (h : records.HaveSourceLabels) :
    addNestedSources (addNestedSources records) = addNestedSources records := by
  refine NameMap.ext_get? fun label => ?_
  cases hrecord : records.get? label with
  | none => rw [get?_addNestedSources, get?_addNestedSources, hrecord]; rfl
  | some record =>
    obtain ⟨sources, hsources, hcompletes⟩ := exists_of_addNestedSources h hrecord
    obtain ⟨again, hagain, hcompleted⟩ :=
      exists_of_addNestedSources (haveSourceLabels_addNestedSources h) hsources
    have hsame : again = sources := by
      refine hcompleted.unchanged ?_
      rintro _ ⟨parent, child, rfl, ⟨other, found, hfound, hlisted⟩, hown, hparent, hbelow⟩
      have hchild := listed_of_addNestedSources h hfound hlisted
      refine (hcompletes.mem_iff _).2 (Or.inr ?_)
      rcases (hcompletes.mem_iff _).1 hown with hown | ⟨above, nested, heq, _, habove, hne, hnested⟩
      · exact ⟨parent, child, rfl, hchild, hown, hparent, hbelow⟩
      · obtain rfl : parent = nested := by
          rw [← sourceDirectory_append parent, heq, sourceDirectory_append]
        rw [← List.isPrefixOf_iff_prefix] at hbelow hnested
        exact ⟨above, child, rfl, hchild, habove, hne,
          List.isPrefixOf_iff_prefix.1 (liesBelow_trans hbelow hnested)⟩
    rw [hagain, hsources, hsame]

/-- Every record gains exactly the listed sources nested in its own, and nothing else changes; when
this is done again, nothing does. -/
theorem addNestedSources_completes (h : records.HaveSourceLabels) :
    (∀ label, records.get? label = none → (addNestedSources records).get? label = none) ∧
    (∀ label record, records.get? label = some record → ∃ sources,
      (addNestedSources records).get? label = some { record with localSources := sources } ∧
        Completes (records.IsNestedSource record) record.localSources sources) ∧
    addNestedSources (addNestedSources records) = addNestedSources records := by
  refine ⟨fun label hnone => ?_, fun label record => exists_of_addNestedSources h,
    addNestedSources_idem h⟩
  rw [get?_addNestedSources, hnone]
  rfl

/-- A record of which only the local sources matter. -/
def withSources (sources : List String) : Record :=
  ⟨"", "", "", "", [], sources, [], NameMap.empty, []⟩

/-- One record lists a directory, another one below it and a sibling that begins with its name, and
a third a directory whose subdirectories are no part of it. -/
def sampleServices : Records where
  entries := [
    ("//a:0", withSources ["//platform2/service:src"]),
    ("//b:0", withSources ["//platform2/service-other:src", "//platform2/service/mojo:src"]),
    ("//c:0", withSources ["//platform2:src"])]
  sorted := by decide

theorem haveSourceLabels_sampleServices : sampleServices.HaveSourceLabels := by
  intro label record hrecord source hsource
  have hentry : (label, record) ∈ sampleServices.entries := NameMap.get?_eq_some_iff.1 hrecord
  simp only [sampleServices, List.mem_cons, Prod.mk.injEq, List.not_mem_nil, or_false] at hentry
  rcases hentry with ⟨-, rfl⟩ | ⟨-, rfl⟩ | ⟨-, rfl⟩
  · exact ⟨"//platform2/service", List.mem_singleton.1 hsource⟩
  · rcases List.mem_cons.1 hsource with rfl | hsource
    · exact ⟨"//platform2/service-other", rfl⟩
    · exact ⟨"//platform2/service/mojo", List.mem_singleton.1 hsource⟩
  · exact ⟨"//platform2", List.mem_singleton.1 hsource⟩

/-- The first record gains the directory below its own, behind the sibling, and the third record
gains nothing. -/
theorem addNestedSources_sampleServices : sampleServices.HaveSourceLabels ∧
    (∃ sources, (addNestedSources sampleServices).get? "//a:0" = some (withSources sources) ∧
      "//platform2/service/mojo:src" ∈ sources ∧ sources.Pairwise fun a b => a ≤ b) ∧
    (addNestedSources sampleServices).get? "//c:0" = some (withSources ["//platform2:src"]) ∧
    addNestedSources (addNestedSources sampleServices) = addNestedSources sampleServices := by
  obtain ⟨-, hgain, hagain⟩ := addNestedSources_completes haveSourceLabels_sampleServices
  refine ⟨haveSourceLabels_sampleServices, ?_, ?_, hagain⟩
  · obtain ⟨sources, hsources, hcompletes⟩ :=
      hgain "//a:0" (withSources ["//platform2/service:src"]) rfl
    have hmojo : "//platform2/service/mojo:src" ∈ sources := by
      refine (hcompletes.mem_iff _).2 (Or.inr ?_)
      exact ⟨"//platform2/service", "//platform2/service/mojo", rfl,
        ⟨"//b:0", _, rfl, by decide⟩, by decide, by decide, by decide⟩
    refine ⟨sources, hsources, hmojo, hcompletes.sorted ?_⟩
    rintro rfl
    exact absurd hmojo (by decide)
  · obtain ⟨sources, hsources, hcompletes⟩ := hgain "//c:0" (withSources ["//platform2:src"]) rfl
    have hsame : sources = ["//platform2:src"] := by
      refine hcompletes.unchanged ?_
      rintro _ ⟨parent, child, rfl, _, hown, hparent, _⟩
      have hdirectory : parent = "//platform2" := by
        rw [← sourceDirectory_append parent, List.mem_singleton.1 hown]
        rfl
      exact absurd hdirectory hparent
    rw [hsources, hsame]
    rfl

end Records
end EbuildGraph
