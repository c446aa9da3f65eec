import EbuildGraph.Proofs.Resolver.Closure

/-!
# Post-dependencies of resolved packages

Post-dependencies wait from the moment in which their label is begun, whether that happens in
the search for the atoms asked for or while others that waited are searched, and at the end
none wait.  Propagated along what is needed at run time, they are therefore told by the
selected packages alone, and the order of the search leaves no trace in them.

Main definitions:

- {lit}`Resolver.IsSelectedAs`: the package that was selected for a label.
- {lit}`Resolver.HasPost`: the labels of the post-dependencies of a package.
- {lit}`Resolver.PropagatesPost`: what the post-dependencies in resolved records are.

Main results:

- Theorem {lit}`IsSelectedAs.unique`: a label stands for one selected package.
- Theorem {lit}`propagatesPost_of_resolve`: resolved records propagate post-dependencies.
-/

namespace EbuildGraph
namespace Resolver

variable {r : Resolver} {σ τ : Selection} {t : SearchState} {label next : String}
  {found : Record} {required : Requirements} {roots : List Atom} {m : Records}

/-! ## Packages of labels -/

/-- A package was selected for an atom that was reached, and the record of its label tells
of it. -/
def IsSelectedAs (r : Resolver) (roots : List Atom) (m : Records) (label : String)
    (σ : Selection) : Prop :=
  ∃ a record, Reached r roots a ∧ r.select a = .ok σ ∧ σ.label = label ∧
    m.get? label = some record ∧ r.TellsOf m σ.package record

/-- A selected label has a record. -/
theorem IsSelectedAs.exists_get? (h : r.IsSelectedAs roots m label σ) :
    ∃ record, m.get? label = some record := by
  obtain ⟨_, record, _, _, _, hrecord, _⟩ := h
  exact ⟨record, hrecord⟩

/-- A record tells name, slot and version, and so a label stands for one selected package. -/
theorem IsSelectedAs.unique (h : r.IsSelectedAs roots m label σ)
    (h' : r.IsSelectedAs roots m label τ) : σ = τ := by
  obtain ⟨a, record, _, hσ, _, hrecord, htells⟩ := h
  obtain ⟨b, record', _, hτ, _, hrecord', htells'⟩ := h'
  obtain rfl : record = record' := Option.some.inj (hrecord.symm.trans hrecord')
  have hname : a.name = b.name := by
    rw [← (admits_of_select hσ).1, ← (admits_of_select hτ).1, ← htells.name, ← htells'.name]
  have hversion : σ.package.version = τ.package.version :=
    version_of_text hσ hτ (htells.version.symm.trans htells'.version)
  have hslot : σ.package.mainSlot = τ.package.mainSlot :=
    htells.mainSlot.symm.trans htells'.mainSlot
  exact selection_eq hσ hτ
    (best_unique hname (select_eq_ok hσ).1 (select_eq_ok hτ).1 hversion hslot)

/-- At the end of a run the package that explains a finished label is the one selected for
it. -/
theorem Runs.exists_isSelectedAs (h : r.Runs roots t)
    (hnode : t.nodes.get? label = some (.finished found)) :
    ∃ σ required, r.IsSelectedAs roots t.completed label σ ∧
      r.Explains t [] σ required found := by
  obtain ⟨a, σ, required, ha, hselect, hlabel, hexplains⟩ := h.explained hnode
  obtain ⟨record, hrecord⟩ := SearchState.exists_get?_completed_iff.2 ⟨found, hnode⟩
  obtain ⟨found', hnode', hagree, _⟩ := SearchState.exists_finished_of_completed hrecord
  rw [hnode] at hnode'
  cases hnode'
  exact ⟨σ, required, ⟨a, record, ha, hselect, hlabel, hrecord, hexplains.tellsOf hagree⟩,
    hexplains⟩

/-! ## Post-dependencies of packages -/

/-- A package has an atom among its post-dependencies for which a package with the label is
selected. -/
def HasPost (r : Resolver) (p : Package) (next : String) : Prop :=
  ∃ post b τ, r.dependencies p "PDEPEND" = .ok post ∧ b ∈ post ∧ r.select b = .ok τ ∧
    τ.label = next

/-- The labels of required post-dependencies are those that the package has. -/
theorem mem_labels_post_iff {p : Package} (h : r.requirements p = .ok required) :
    next ∈ (r.labels required.post).toList ↔ r.HasPost p next := by
  rw [← NameSet.mem_iff_mem_toList, mem_labels_iff]
  simp [HasPost, post_of_requirements h, labelOf?_eq_some_iff]

/-! ## Propagation -/

/-- What the post-dependencies in resolved records are.  For every label one package is
selected, of which all post-dependencies are recorded.  In the record of a label are those of
the packages selected for the label itself and for all labels that it leads to at run time,
the label itself left out. -/
structure PropagatesPost (r : Resolver) (roots : List Atom) (m : Records) : Prop where
  selected : ∀ label record, m.get? label = some record → ∃! σ, r.IsSelectedAs roots m label σ
  recorded : ∀ label σ, r.IsSelectedAs roots m label σ →
    ∃ post, r.dependencies σ.package "PDEPEND" = .ok post ∧ ∀ b ∈ post, r.IsRecorded m b
  exact : ∀ label record, m.get? label = some record → ∀ next,
    next ∈ record.postDependencies ↔ next ≠ label ∧ ∃ key σ,
      Relation.ReflTransGen (Records.NeedsAtRuntime m) label key ∧
        r.IsSelectedAs roots m key σ ∧ r.HasPost σ.package next

/-- The package selected for a label has the post-dependencies in the record with which the
label was finished. -/
theorem Runs.hasPost_iff (h : r.Runs roots t)
    (hnode : t.nodes.get? label = some (.finished found)) :
    next ∈ found.postDependencies ↔
      ∃ σ, r.IsSelectedAs roots t.completed label σ ∧ r.HasPost σ.package next := by
  obtain ⟨σ, required, hselected, hexplains⟩ := h.exists_isSelectedAs hnode
  rw [hexplains.post.1, mem_labels_post_iff hexplains.describes.requires]
  constructor
  · exact fun hpost => ⟨σ, hselected, hpost⟩
  · rintro ⟨τ, hselected', hpost⟩
    rwa [hselected.unique hselected']

/-- The finished records of a run carry the post dependencies that their runtime dependencies lead
to. -/
theorem Runs.propagatesPost (h : r.Runs roots t) : r.PropagatesPost roots t.completed where
  selected := by
    intro label record hrecord
    obtain ⟨found, hnode⟩ := SearchState.exists_get?_completed_iff.1 ⟨record, hrecord⟩
    obtain ⟨σ, _, hselected, _⟩ := h.exists_isSelectedAs hnode
    exact ⟨σ, hselected, fun τ hselected' => hselected'.unique hselected⟩
  recorded := by
    intro label σ hselected
    obtain ⟨found, hnode⟩ := SearchState.exists_get?_completed_iff.1 hselected.exists_get?
    obtain ⟨τ, required, hselected', hexplains⟩ := h.exists_isSelectedAs hnode
    obtain rfl : σ = τ := hselected.unique hselected'
    exact ⟨required.post, post_of_requirements hexplains.describes.requires,
      fun b hb => isRecorded_of_settled (hexplains.post.2 b hb)⟩
  exact := by
    intro label record hrecord next
    obtain ⟨_, _, _, _, _, hpost⟩ := SearchState.exists_finished_of_completed hrecord
    rw [hpost next]
    refine and_congr_right fun _ => exists_congr fun key => ?_
    constructor
    · rintro ⟨other, hreach, hnode, hmem⟩
      obtain ⟨σ, hselected, hhas⟩ := (h.hasPost_iff hnode).1 hmem
      exact ⟨σ, hreach, hselected, hhas⟩
    · rintro ⟨σ, hreach, hselected, hhas⟩
      obtain ⟨other, hnode⟩ := SearchState.exists_get?_completed_iff.1 hselected.exists_get?
      exact ⟨other, hreach, hnode, (h.hasPost_iff hnode).2 ⟨σ, hselected, hhas⟩⟩

/-- The post-dependencies in a resolved record are exactly those of the packages selected for
its label and for the labels that it leads to at run time, wherever in the search these were
found. -/
theorem propagatesPost_of_resolve (h : r.resolve roots = .ok m) : r.PropagatesPost roots m := by
  obtain ⟨t, hruns, rfl⟩ := resolve_eq_ok_iff_runs.1 h
  exact hruns.propagatesPost

/-- The linked ebuilds propagate the post-dependency of the first one. -/
theorem propagatesPost_linked : ∃ m, linkedResolver.resolve linkedAtoms = .ok m ∧
    linkedResolver.PropagatesPost linkedAtoms m := by
  obtain ⟨m, hm⟩ := exists_resolve_linked
  exact ⟨m, hm, propagatesPost_of_resolve hm⟩

end Resolver
end EbuildGraph
