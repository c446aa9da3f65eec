import EbuildGraph.Record.PostDependencies
import Mathlib.Logic.Relation

/-!
# Post-dependencies and reachability

The depth-first collection of post-dependencies is exactly reachability at run time,
although it stops on its own path and keeps what it has collected across labels.  Two
facts carry this.  A collection that is complete lacks nothing, because nothing below it
was cut.  And a cut loses nothing for the label where the path starts: a label that can be
reached at all can be reached without passing any label twice.

Main results:

- Theorem {lit}`reaches_offPath`: a label reached off a path is the start or is reached
  from a label that the start needs, off the path extended by the start.
- Theorem {lit}`collects`: what a collection lacks and what it does not.
- Theorem {lit}`exists_get?_of_propagate`: what a record is after propagation.
- Theorem {lit}`propagate_collects_reachable`: propagated post-dependencies are the reachable ones.
-/

namespace EbuildGraph
namespace Records

variable {records : Records}

/-! ## Reachability at run time -/

/-- The record of the first label needs the second label at run time. -/
def NeedsAtRuntime (records : Records) (label next : String) : Prop :=
  ∃ record, records.get? label = some record ∧ next ∈ record.runtimeDependencies

/-- A label names a post-dependency of some record that another label leads to, itself
included, over labels that are not on a path. -/
def LeadsToPost (records : Records) (path : NameSet) (label post : String) : Prop :=
  ∃ key record,
    Relation.ReflTransGen (fun a b => NeedsAtRuntime records a b ∧ b ∉ path) label key ∧
      records.get? key = some record ∧ post ∈ record.postDependencies

/-- A label reached off a path is the start, or it is reached from a label that the start
needs without coming back to the start. -/
theorem reaches_offPath {path : NameSet} {label key : String}
    (h : Relation.ReflTransGen (fun a b => NeedsAtRuntime records a b ∧ b ∉ path) label key) :
    key = label ∨ ∃ next, NeedsAtRuntime records label next ∧ next ∉ path.insert label ∧
      Relation.ReflTransGen
        (fun a b => NeedsAtRuntime records a b ∧ b ∉ path.insert label) next key := by
  induction h with
  | refl => exact Or.inl rfl
  | @tail last key _ hstep ih =>
    obtain ⟨hneeds, hpath⟩ := hstep
    by_cases heq : key = label
    · exact Or.inl heq
    have hoff : key ∉ path.insert label := by
      simp [heq, hpath]
    rcases ih with rfl | ⟨next, hfirst, hnext, hreach⟩
    · exact Or.inr ⟨key, hneeds, hoff, .refl⟩
    · exact Or.inr ⟨next, hfirst, hnext, hreach.tail ⟨hneeds, hoff⟩⟩

/-- With nothing on the path, the post dependencies that count are those of the records that runtime
dependencies reach. -/
theorem leadsToPost_empty_iff {label post : String} :
    LeadsToPost records NameSet.empty label post ↔ ∃ key record,
      Relation.ReflTransGen (NeedsAtRuntime records) label key ∧
        records.get? key = some record ∧ post ∈ record.postDependencies := by
  simp [LeadsToPost]

/-- A label without a record contributes nothing. -/
theorem not_leadsToPost_of_none {path : NameSet} {label post : String}
    (h : records.get? label = none) : ¬LeadsToPost records path label post := by
  rintro ⟨key, record, hreach, hkey, _⟩
  rcases reaches_offPath hreach with rfl | ⟨next, ⟨other, hother, _⟩, _⟩
  · rw [h] at hkey
    cases hkey
  · rw [h] at hother
    cases hother

/-- What a label leads to off a path it names itself, or a label that it needs leads to it
off the longer path. -/
theorem LeadsToPost.cases {path : NameSet} {label post : String} {record : Record}
    (hlabel : records.get? label = some record) (h : LeadsToPost records path label post) :
    post ∈ record.postDependencies ∨ ∃ next ∈ record.runtimeDependencies,
      next ∉ path.insert label ∧ LeadsToPost records (path.insert label) next post := by
  obtain ⟨key, other, hreach, hkey, hpost⟩ := h
  rcases reaches_offPath hreach with rfl | ⟨next, ⟨first, hfirst, hnext⟩, hoff, hrest⟩
  · rw [hlabel] at hkey
    cases hkey
    exact Or.inl hpost
  · rw [hlabel] at hfirst
    cases hfirst
    exact Or.inr ⟨next, hnext, hoff, key, other, hrest, hkey, hpost⟩

/-- The post dependencies of a record count at its own label. -/
theorem LeadsToPost.of_mem {path : NameSet} {label post : String} {record : Record}
    (hlabel : records.get? label = some record) (h : post ∈ record.postDependencies) :
    LeadsToPost records path label post :=
  ⟨label, record, .refl, hlabel, h⟩

/-- What counts at a runtime dependency counts at the record that names it. -/
theorem LeadsToPost.of_needs {label next post : String} {record : Record}
    (hlabel : records.get? label = some record) (hnext : next ∈ record.runtimeDependencies)
    (h : LeadsToPost records NameSet.empty next post) :
    LeadsToPost records NameSet.empty label post := by
  obtain ⟨key, other, hreach, hkey, hpost⟩ := h
  have hstep := And.intro (⟨record, hlabel, hnext⟩ : NeedsAtRuntime records label next)
    (NameSet.not_mem_empty next)
  exact ⟨key, other, .head hstep hreach, hkey, hpost⟩

/-- A longer path leaves less to be reached. -/
theorem LeadsToPost.of_path {path : NameSet} {label post : String}
    (h : LeadsToPost records path label post) :
    LeadsToPost records NameSet.empty label post := by
  obtain ⟨key, record, hreach, hkey, hpost⟩ := h
  refine ⟨key, record, ?_, hkey, hpost⟩
  exact hreach.lift id fun _ b hstep => ⟨hstep.1, NameSet.not_mem_empty b⟩

/-! ## Collections -/

/-- Every collection that was kept holds exactly what its label leads to. -/
def IsExact (records : Records) (kept : NameMap NameSet) : Prop :=
  ∀ label labels, kept.get? label = some labels →
    ∀ post, post ∈ labels ↔ LeadsToPost records NameSet.empty label post

/-- What a collection from some labels along a path holds: nothing but what they lead to,
all of it if it is complete, and in any case all that they lead to off the path. -/
structure Collects (records : Records) (path : NameSet) (starts : List String)
    (c : Collection) : Prop where
  sound : ∀ post ∈ c.labels, ∃ label ∈ starts, LeadsToPost records NameSet.empty label post
  complete : c.complete = true → ∀ label ∈ starts, ∀ post,
    LeadsToPost records NameSet.empty label post → post ∈ c.labels
  off : ∀ label ∈ starts, label ∉ path → ∀ post,
    LeadsToPost records path label post → post ∈ c.labels

/-- Nothing is kept before the first collection. -/
theorem isExact_empty (records : Records) : IsExact records NameMap.empty := by
  intro label labels h
  cases h

/-- A set may be kept for a label once it holds all the post dependencies of that label and no
others. -/
theorem IsExact.insert {kept : NameMap NameSet} {label : String} {labels : NameSet}
    (h : IsExact records kept)
    (hlabels : ∀ post, post ∈ labels ↔ LeadsToPost records NameSet.empty label post) :
    IsExact records (kept.insert label labels) := by
  intro other found hfound post
  rw [NameMap.get?_insert] at hfound
  split at hfound
  · next heq =>
    cases hfound
    rw [heq]
    exact hlabels post
  · exact h other found hfound post

/-- Two collections put together hold the labels of both. -/
@[simp]
theorem mem_merge {c d : Collection} {label : String} :
    label ∈ (c.merge d).labels ↔ label ∈ c.labels ∨ label ∈ d.labels :=
  NameSet.mem_insertAll

/-- A collection put together from two is complete if both are. -/
@[simp]
theorem complete_merge {c d : Collection} :
    (c.merge d).complete = true ↔ c.complete = true ∧ d.complete = true := by
  simp [Collection.merge]

theorem collects_nil (path : NameSet) : Collects records path [] .empty where
  sound post hpost := absurd hpost (NameSet.not_mem_empty post)
  complete _ _ hlabel := absurd hlabel List.not_mem_nil
  off _ hlabel := absurd hlabel List.not_mem_nil

theorem collects_empty {path : NameSet} {label : String} (h : records.get? label = none) :
    Collects records path [label] .empty where
  sound post hpost := absurd hpost (NameSet.not_mem_empty post)
  complete := by
    intro _ other hother post hpost
    rw [List.mem_singleton.1 hother] at hpost
    exact absurd hpost (not_leadsToPost_of_none h)
  off := by
    intro other hother _ post hpost
    rw [List.mem_singleton.1 hother] at hpost
    exact absurd hpost (not_leadsToPost_of_none h)

/-- A cut is incomplete, and its label lies on the path. -/
theorem collects_cut {path : NameSet} {label : String} (h : path.contains label = true) :
    Collects records path [label] .cut where
  sound post hpost := absurd hpost (NameSet.not_mem_empty post)
  complete hcomplete := nomatch hcomplete
  off := by
    intro other hother hpath
    rw [List.mem_singleton.1 hother] at hpath
    exact absurd (NameSet.contains_iff_mem.1 h) hpath

/-- A set kept from before answers for its label, whatever is on the path. -/
theorem collects_kept {path : NameSet} {label : String} {labels : NameSet}
    (h : ∀ post, post ∈ labels ↔ LeadsToPost records NameSet.empty label post) :
    Collects records path [label] ⟨labels, true⟩ where
  sound post hpost := ⟨label, List.mem_singleton_self label, (h post).1 hpost⟩
  complete := by
    intro _ other hother post hpost
    rw [List.mem_singleton.1 hother] at hpost
    exact (h post).2 hpost
  off := by
    intro other hother _ post hpost
    rw [List.mem_singleton.1 hother] at hpost
    exact (h post).2 hpost.of_path

/-- A record adds its own post-dependencies to what the labels that it needs lead to. -/
theorem Collects.own {path : NameSet} {label : String} {record : Record} {below : Collection}
    (hlabel : records.get? label = some record)
    (h : Collects records (path.insert label) record.runtimeDependencies below) :
    Collects records path [label]
      (Collection.merge ⟨NameSet.ofList record.postDependencies, true⟩ below) where
  sound := by
    intro post hpost
    refine ⟨label, List.mem_singleton_self label, ?_⟩
    rcases mem_merge.1 hpost with hown | hbelow
    · exact .of_mem hlabel (NameSet.mem_ofList.1 hown)
    · obtain ⟨next, hnext, hleads⟩ := h.sound post hbelow
      exact .of_needs hlabel hnext hleads
  complete := by
    intro hcomplete other hother post hpost
    rw [List.mem_singleton.1 hother] at hpost
    rcases hpost.cases hlabel with hown | ⟨next, hnext, _, hleads⟩
    · exact mem_merge.2 (Or.inl (NameSet.mem_ofList.2 hown))
    · have hbelow := h.complete (complete_merge.1 hcomplete).2 next hnext post hleads.of_path
      exact mem_merge.2 (Or.inr hbelow)
  off := by
    intro other hother _ post hpost
    rw [List.mem_singleton.1 hother] at hpost
    rcases hpost.cases hlabel with hown | ⟨next, hnext, hoff, hleads⟩
    · exact mem_merge.2 (Or.inl (NameSet.mem_ofList.2 hown))
    · exact mem_merge.2 (Or.inr (h.off next hnext hoff post hleads))

/-- The first label of a list and the rest are collected one after the other. -/
theorem Collects.merge {path : NameSet} {label : String} {rest : List String}
    {first others : Collection} (hfirst : Collects records path [label] first)
    (hothers : Collects records path rest others) :
    Collects records path (label :: rest) (first.merge others) where
  sound := by
    intro post hpost
    rcases mem_merge.1 hpost with hmem | hmem
    · obtain ⟨start, hstart, hleads⟩ := hfirst.sound post hmem
      exact ⟨start, List.mem_cons.2 (Or.inl (List.mem_singleton.1 hstart)), hleads⟩
    · obtain ⟨start, hstart, hleads⟩ := hothers.sound post hmem
      exact ⟨start, List.mem_cons_of_mem label hstart, hleads⟩
  complete := by
    intro hcomplete start hstart post hpost
    obtain ⟨hcompleteFirst, hcompleteOthers⟩ := complete_merge.1 hcomplete
    rcases List.mem_cons.1 hstart with rfl | hrest
    · exact mem_merge.2
        (Or.inl (hfirst.complete hcompleteFirst start (List.mem_singleton_self start) post hpost))
    · exact mem_merge.2 (Or.inr (hothers.complete hcompleteOthers start hrest post hpost))
  off := by
    intro start hstart hpath post hpost
    rcases List.mem_cons.1 hstart with rfl | hrest
    · exact mem_merge.2
        (Or.inl (hfirst.off start (List.mem_singleton_self start) hpath post hpost))
    · exact mem_merge.2 (Or.inr (hothers.off start hrest hpath post hpost))

/-- A complete collection from one label may be kept. -/
theorem Collects.isExact {path : NameSet} {label : String} {c : Collection}
    {kept : NameMap NameSet} (h : Collects records path [label] c)
    (hcomplete : c.complete = true) (hkept : IsExact records kept) :
    IsExact records (kept.insert label c.labels) := by
  refine hkept.insert fun post => ⟨fun hmem => ?_, fun hleads => ?_⟩
  · obtain ⟨start, hstart, hleads⟩ := h.sound post hmem
    rwa [List.mem_singleton.1 hstart] at hleads
  · exact h.complete hcomplete label (List.mem_singleton_self label) post hleads

mutual

/-- Collecting along a path keeps only exact collections, and lacks at most what the path
had to leave out. -/
theorem collects (label : String) (path : NameSet) {kept : NameMap NameSet}
    (hkept : IsExact records kept) :
    Collects records path [label] (collect records label path kept).1 ∧
      IsExact records (collect records label path kept).2 := by
  rw [collect]
  split
  · next labels hfound => exact ⟨collects_kept (hkept label labels hfound), hkept⟩
  split
  · next hnone => exact ⟨collects_empty hnone, hkept⟩
  next record hlabel =>
  split
  · next hpath => exact ⟨collects_cut hpath, hkept⟩
  · next hpath =>
    have hshorter := length_offPath_insert_lt hlabel hpath
    obtain ⟨hbelow, hkeptBelow⟩ :=
      collectsAll record.runtimeDependencies (path.insert label) hkept
    have hfound := hbelow.own hlabel
    refine ⟨hfound, ?_⟩
    dsimp only
    split
    · next hcomplete => exact hfound.isExact hcomplete hkeptBelow
    · exact hkeptBelow
termination_by ((records.offPath path).length, 0)

/-- The walk over a list of labels collects for each of them, and what it keeps stays exact. -/
theorem collectsAll (labels : List String) (path : NameSet) {kept : NameMap NameSet}
    (hkept : IsExact records kept) :
    Collects records path labels (collectAll records labels path kept).1 ∧
      IsExact records (collectAll records labels path kept).2 := by
  cases labels with
  | nil =>
    rw [collectAll]
    exact ⟨collects_nil path, hkept⟩
  | cons label rest =>
    rw [collectAll]
    obtain ⟨hfirst, hkeptFirst⟩ := collects label path hkept
    obtain ⟨hothers, hkeptOthers⟩ := collectsAll rest path hkeptFirst
    exact ⟨hfirst.merge hothers, hkeptOthers⟩
termination_by ((records.offPath path).length, labels.length + 1)

end

/-! ## Propagation -/

/-- Where the path starts nothing has been left out. -/
theorem mem_collect_iff {label post : String} {kept : NameMap NameSet}
    (hkept : IsExact records kept) :
    post ∈ (collect records label NameSet.empty kept).1.labels ↔
      LeadsToPost records NameSet.empty label post := by
  obtain ⟨hcollects, _⟩ := collects label NameSet.empty hkept
  constructor
  · intro hpost
    obtain ⟨start, hstart, hleads⟩ := hcollects.sound post hpost
    rwa [List.mem_singleton.1 hstart] at hleads
  · exact hcollects.off label (List.mem_singleton_self label) (NameSet.not_mem_empty label) post

/-- Every label that is asked for gets exactly what it leads to, whatever was kept from
the labels before it. -/
theorem exists_get?_collectEach {label : String} {names : List String} (hlabel : label ∈ names)
    {kept : NameMap NameSet} (hkept : IsExact records kept) :
    ∃ labels, (collectEach records names kept).get? label = some labels ∧
      ∀ post, post ∈ labels ↔ LeadsToPost records NameSet.empty label post := by
  induction names generalizing kept with
  | nil => exact absurd hlabel List.not_mem_nil
  | cons first rest ih =>
    have hnext : IsExact records (collect records first NameSet.empty kept).2 :=
      (collects first NameSet.empty hkept).2
    simp only [collectEach, NameMap.get?_insert]
    by_cases heq : label = first
    · subst heq
      exact ⟨_, if_pos rfl, fun post => mem_collect_iff hkept⟩
    · rw [if_neg heq]
      exact ih ((List.mem_cons.1 hlabel).resolve_left heq) hnext

/-- A record after propagation is the one before it, with the post-dependencies that its label
leads to in order and without the label itself. -/
theorem exists_get?_of_propagate {label : String} {record : Record}
    (h : records.propagate.get? label = some record) :
    ∃ found labels, records.get? label = some found ∧
      record = { found with postDependencies := labels } ∧ labels.Pairwise (· < ·) ∧
      ∀ post, post ∈ labels ↔ post ≠ label ∧ LeadsToPost records NameSet.empty label post := by
  rw [propagate, NameMap.get?_mapEntries] at h
  obtain ⟨found, hfound, rfl⟩ := Option.map_eq_some_iff.1 h
  obtain ⟨labels, hcollected, hlabels⟩ :=
    exists_get?_collectEach (NameMap.mem_names_of_get? hfound) (isExact_empty records)
  refine ⟨found, (labels.erase label).toList, hfound, by simp [hcollected],
    (labels.erase label).sorted, fun post => ?_⟩
  rw [← hlabels post, and_comm]
  exact NameSet.mem_erase

/-- After propagation there are the same labels, and of each record only the
post-dependencies have changed.  They are sorted without repetitions, and they are the
post-dependencies of all records that the label leads to at run time, the label itself
left out. -/
theorem propagate_collects_reachable (records : Records) (label : String) :
    ∃ labels : List String,
      records.propagate.get? label =
          (records.get? label).map (fun record => { record with postDependencies := labels }) ∧
        labels.Pairwise (· < ·) ∧
        ∀ post, post ∈ labels ↔ post ≠ label ∧ ∃ key record,
          Relation.ReflTransGen (NeedsAtRuntime records) label key ∧
            records.get? key = some record ∧ post ∈ record.postDependencies := by
  rcases hlabel : records.get? label with _ | record
  · refine ⟨[], by simp [propagate, hlabel], .nil, ?_⟩
    intro post
    have hnone : ¬LeadsToPost records NameSet.empty label post := not_leadsToPost_of_none hlabel
    rw [leadsToPost_empty_iff] at hnone
    exact ⟨fun hmem => absurd hmem List.not_mem_nil, fun hleads => absurd hleads.2 hnone⟩
  · obtain ⟨labels, hcollected, hlabels⟩ :=
      exists_get?_collectEach (NameMap.mem_names_of_get? hlabel) (isExact_empty records)
    refine ⟨(labels.erase label).toList, by simp [propagate, hlabel, hcollected],
      (labels.erase label).sorted, ?_⟩
    intro post
    rw [← leadsToPost_empty_iff, ← hlabels post, and_comm]
    exact NameSet.mem_erase

end Records
end EbuildGraph
