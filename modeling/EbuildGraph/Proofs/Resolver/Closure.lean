import EbuildGraph.Proofs.Record.NestedSources
import EbuildGraph.Proofs.Record.PostDependencies
import EbuildGraph.Proofs.Resolver.Graph
import EbuildGraph.Proofs.Resolver.Termination

/-!
# The resolved table is closed

At the end of a run every label that was begun is finished, nothing waits any more, and the
labels in a record were searched before the record was made or entered.  Completing the
records adds only labels that some record names already.  So every label in resolved records
has a record itself, and all lists stay in order.

Main definitions:

- {lit}`Record.IsSorted`: the lists of a record are in order.
- {lit}`Records.IsClosed`: every label that a record names has a record.

Main results:

- Theorem {lit}`exists_finished_of_completed`: what completed records come from.
- Theorem {lit}`isClosed_of_resolve`: resolved records are closed, and they are those of the
  labels that were begun.
-/

namespace EbuildGraph

/-- Labels and local sources of a record are sorted without repetitions. -/
structure Record.IsSorted (record : Record) : Prop where
  build : record.buildDependencies.Pairwise (· < ·)
  runtime : record.runtimeDependencies.Pairwise (· < ·)
  post : record.postDependencies.Pairwise (· < ·)
  localSources : record.localSources.Pairwise (· < ·)

/-- A record names a label as a dependency of some kind. -/
def Record.Names (record : Record) (label : String) : Prop :=
  label ∈ record.buildDependencies ∨ label ∈ record.runtimeDependencies ∨
    label ∈ record.postDependencies

/-- Every label that a record of the table names has a record in the table, and all records
are sorted. -/
structure Records.IsClosed (m : Records) : Prop where
  known : ∀ label record, m.get? label = some record → ∀ next, record.Names next →
    ∃ other, m.get? next = some other
  sorted : ∀ label record, m.get? label = some record → record.IsSorted

namespace Resolver

variable {r : Resolver} {σ : Selection} {t : SearchState} {label next : String}
  {record found : Record} {required : Requirements} {roots : List Atom} {m : Records}

/-! ## The end of a run -/

/-- At the end of a run every label that was begun is finished. -/
theorem Runs.idle (h : r.Runs roots t) : t.Idle := by
  obtain ⟨s, hsearch, hsteps, _⟩ := h
  exact idle_of_steps hsteps (hsearch.grows.idle SearchState.idle_empty)

/-- At the end of a run, every label that was begun is finished. -/
theorem Runs.finished_iff (h : r.Runs roots t) :
    (∃ record, t.nodes.get? label = some (.finished record)) ↔ t.nodes.get? label ≠ none := by
  rcases hnode : t.nodes.get? label with _ | _ | record
  · simp
  · exact absurd hnode (h.idle label)
  · simp

/-- When nothing is pending the post-dependencies in a record are those of its package. -/
theorem Explains.post (h : r.Explains t [] σ required found) :
    found.postDependencies = (r.labels required.post).toList ∧
      ∀ a ∈ required.post, r.Settled t a :=
  h.owed.resolve_left List.not_mem_nil

/-- When nothing is pending all that a record names is finished. -/
theorem Explains.finished_of_names (h : r.Explains t [] σ required found)
    (hnext : found.Names next) : ∃ other, t.nodes.get? next = some (.finished other) := by
  rcases hnext with hbuild | hruntime | hpost
  · exact h.describes.finished_of_needs h.needs (Or.inl hbuild)
  · exact h.describes.finished_of_needs h.needs (Or.inr hruntime)
  · obtain ⟨hlabels, hsettled⟩ := h.post
    exact finished_of_mem_labels hsettled (hlabels ▸ hpost)

/-- When nothing is pending all lists of a record are those of sets. -/
theorem Explains.isSorted (h : r.Explains t [] σ required found) : found.IsSorted where
  build := h.describes.build ▸ NameSet.sorted _
  runtime := h.describes.runtime ▸ NameSet.sorted _
  post := h.post.1 ▸ NameSet.sorted _
  localSources := by
    obtain ⟨sources, _, heq⟩ := map_eq_ok_iff.1 h.describes.localSources
    exact heq ▸ sources.sorted

/-- At the end of a run every finished label stands for a selected package that explains its
record, with nothing pending. -/
theorem Runs.explained (h : r.Runs roots t)
    (hnode : t.nodes.get? label = some (.finished found)) :
    ∃ a σ required, Reached r roots a ∧ r.select a = .ok σ ∧ σ.label = label ∧
      r.Explains t [] σ required found := by
  obtain ⟨hcoherent, hwaiting, _⟩ := h.coherent
  obtain ⟨a, σ, required, ha, hselect, hlabel, hexplains⟩ :=
    hcoherent.explained label found hnode
  rw [hwaiting] at hexplains
  exact ⟨a, σ, required, ha, hselect, hlabel, hexplains⟩

/-! ## Completed records -/

/-- Completing records neither adds nor removes labels. -/
theorem SearchState.exists_get?_completed_iff :
    (∃ record, t.completed.get? label = some record) ↔
      ∃ found, t.nodes.get? label = some (.finished found) := by
  obtain ⟨sources, posts, hcomplete⟩ := exists_get?_complete t.records label
  rw [completed, hcomplete]
  simp [SearchState.get?_records]

/-- Completing records does not change what labels need at run time. -/
theorem SearchState.needsAtRuntime_completed_iff :
    Records.NeedsAtRuntime t.completed label next ↔
      Records.NeedsAtRuntime (Records.addNestedSources t.records) label next := by
  obtain ⟨sources, posts, hcomplete⟩ := exists_get?_complete t.records label
  simp [Records.NeedsAtRuntime, completed, hcomplete, Records.get?_addNestedSources]

/-- A completed record comes from a finished label.  Its local sources are completed with
nested ones, and its post-dependencies are those that finished labels name to which the label
leads at run time. -/
theorem SearchState.exists_finished_of_completed (h : t.completed.get? label = some record) :
    ∃ found, t.nodes.get? label = some (.finished found) ∧ Agree record found ∧
      record.localSources =
        Records.withNested (Records.listedDirectories t.records) found.localSources ∧
      record.postDependencies.Pairwise (· < ·) ∧
      ∀ post, post ∈ record.postDependencies ↔ post ≠ label ∧ ∃ key other,
        Relation.ReflTransGen (Records.NeedsAtRuntime t.completed) label key ∧
          t.nodes.get? key = some (.finished other) ∧ post ∈ other.postDependencies := by
  obtain ⟨nested, labels, hnested, rfl, hsorted, hlabels⟩ := Records.exists_get?_of_propagate h
  rw [Records.get?_addNestedSources] at hnested
  obtain ⟨found, hfound, rfl⟩ := Option.map_eq_some_iff.1 hnested
  refine ⟨found, SearchState.get?_records.1 hfound, ⟨rfl, rfl, rfl, rfl, rfl⟩, rfl, hsorted,
    fun post => ?_⟩
  have hneeds : Records.NeedsAtRuntime t.completed =
      Records.NeedsAtRuntime (Records.addNestedSources t.records) := by
    ext label next
    exact needsAtRuntime_completed_iff
  rw [hlabels post, Records.leadsToPost_empty_iff, hneeds]
  simp [Records.get?_addNestedSources, SearchState.get?_records]

/-! ## Closed records -/

/-- The records of a run are closed: each label that occurs in them is a key. -/
theorem Runs.isClosed (h : r.Runs roots t) : t.completed.IsClosed where
  known := by
    intro label record hrecord next hnext
    rw [SearchState.exists_get?_completed_iff]
    obtain ⟨found, hnode, hagree, _, _, hpost⟩ := SearchState.exists_finished_of_completed hrecord
    obtain ⟨_, _, _, _, _, _, hexplains⟩ := h.explained hnode
    rcases hnext with hbuild | hruntime | hmem
    · exact hexplains.finished_of_names (Or.inl (hagree.build ▸ hbuild))
    · exact hexplains.finished_of_names (Or.inr (Or.inl (hagree.runtime ▸ hruntime)))
    · obtain ⟨_, key, other, _, hkey, hnamed⟩ := (hpost next).1 hmem
      obtain ⟨_, _, _, _, _, _, hexplainsKey⟩ := h.explained hkey
      exact hexplainsKey.finished_of_names (Or.inr (Or.inr hnamed))
  sorted := by
    intro label record hrecord
    obtain ⟨found, hnode, hagree, hsources, hpost, _⟩ :=
      SearchState.exists_finished_of_completed hrecord
    obtain ⟨_, _, _, _, _, _, hexplains⟩ := h.explained hnode
    have hsorted : found.IsSorted := hexplains.isSorted
    refine ⟨hagree.build ▸ hsorted.build, hagree.runtime ▸ hsorted.runtime, hpost, ?_⟩
    rw [hsources]
    exact Records.pairwise_lt_withNested _ hsorted.localSources

/-- Resolved records are closed: every label in a record, whether needed to build, to run or
afterwards, has a record as well, and all lists are sorted without repetitions.  They are the
records of exactly the labels that were begun on the way, so that none has been lost. -/
theorem isClosed_of_resolve (h : r.resolve roots = .ok m) :
    m.IsClosed ∧ ∃ events t, Proceeds r roots events (.ok t) ∧ m = t.completed ∧
      ∀ label, label ∈ Event.begun events ↔ ∃ record, m.get? label = some record := by
  obtain ⟨events, t, hproceeds, rfl⟩ := exists_proceeds_of_ok h
  have hruns : r.Runs roots t := hproceeds.runs
  refine ⟨hruns.isClosed, events, t, hproceeds, rfl, fun label => ?_⟩
  have hmet := hproceeds.accounts.met t rfl label
  rw [SearchState.exists_get?_completed_iff, hruns.finished_iff, Ne, hmet]
  simp

/-- The records of the linked ebuilds are closed. -/
theorem isClosed_linked : ∃ m, linkedResolver.resolve linkedAtoms = .ok m ∧ m.IsClosed ∧
    ∃ events t, Proceeds linkedResolver linkedAtoms events (.ok t) ∧ m = t.completed ∧
      ∀ label, label ∈ Event.begun events ↔ ∃ record, m.get? label = some record := by
  obtain ⟨m, hm⟩ := exists_resolve_linked
  exact ⟨m, hm, isClosed_of_resolve hm⟩

end Resolver
end EbuildGraph
