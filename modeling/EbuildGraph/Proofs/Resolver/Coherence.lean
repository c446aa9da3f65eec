import EbuildGraph.Proofs.Resolver.Names
import EbuildGraph.Proofs.Resolver.Search

/-!
# What holds throughout a search

Every finished label stands for a selected package whose record describes it, and all that
the package requires is settled, its post-dependencies excepted while they are pending.
Labels are finished after those that they need, so that needing is well-founded.  Beginning
a label, finishing it and entering its post-dependencies each preserve this, and so does
every search.

Main definitions:

- {lit}`Resolver.Explains`: what is known of a finished label.
- {lit}`Resolver.Coherent`: what holds throughout a search.

Main results:

- Theorem {lit}`Coherent.search`: a search preserves coherence.
- Theorem {lit}`Coherent.steps`: searching post-dependencies preserves coherence.
-/

namespace EbuildGraph
namespace Resolver

variable {r : Resolver} {a : Atom} {σ : Selection} {s t u : SearchState}
  {label next : String} {record : Record} {required : Requirements} {post : List Atom}
  {pending pending' flight : List (String × List Atom)} {roots : List Atom}

/-! ## Well-founded needs -/

/-- The record of a finished label names another label as needed to build or to run. -/
def SearchState.Needs (s : SearchState) (label next : String) : Prop :=
  ∃ record, s.nodes.get? label = some (.finished record) ∧
    (next ∈ record.buildDependencies ∨ next ∈ record.runtimeDependencies)

/-- A relation stays well-founded when one element that is below none gets others below it. -/
theorem wellFounded_of_top {α : Type} {below below' : α → α → Prop} {top : α}
    (h : WellFounded below) (hold : ∀ x y, below' y x → x ≠ top → below y x)
    (htop : ∀ x y, below' y x → y ≠ top) : WellFounded below' := by
  have hother : ∀ x, x ≠ top → Acc below' x := by
    intro x
    induction x using h.induction with
    | _ x ih =>
      intro hx
      exact .intro x fun y hy => ih y (hold x y hy hx) (htop x y hy)
  refine ⟨fun x => ?_⟩
  by_cases hx : x = top
  · exact .intro x fun y hy => hother y (htop x y hy)
  · exact hother x hx

/-! ## Finished labels -/

/-- What the package selected for a reached atom needs is reached. -/
theorem Describes.reached (h : r.Describes σ required record) (ha : Reached r roots a)
    (hselect : r.select a = .ok σ) :
    ∀ b ∈ required.runtime ++ required.build, Reached r roots b :=
  ha.needs hselect h.requires

/-- A finished label stands for a selection: its record describes the package, what the
package needs is settled, and its post-dependencies are pending or are settled and entered. -/
structure Explains (r : Resolver) (s : SearchState) (pending : List (String × List Atom))
    (σ : Selection) (required : Requirements) (record : Record) : Prop where
  describes : r.Describes σ required record
  needs : ∀ a ∈ required.runtime ++ required.build, r.Settled s a
  owed : (σ.label, required.post) ∈ pending ∨
    record.postDependencies = (r.labels required.post).toList ∧
      ∀ a ∈ required.post, r.Settled s a
  pending : ∀ atoms, (σ.label, atoms) ∈ pending → atoms = required.post

/-- A label stays explained when settled atoms stay settled and for the label there is the
same pending. -/
theorem Explains.mono (h : r.Explains s pending σ required record)
    (hsettled : ∀ a, r.Settled s a → r.Settled t a)
    (hpending : ∀ atoms, (σ.label, atoms) ∈ pending' ↔ (σ.label, atoms) ∈ pending) :
    r.Explains t pending' σ required record := by
  refine ⟨h.describes, fun a ha => hsettled a (h.needs a ha), ?_, ?_⟩
  · rcases h.owed with hmem | ⟨hlabels, hpost⟩
    · exact Or.inl ((hpending _).2 hmem)
    · exact Or.inr ⟨hlabels, fun a ha => hsettled a (hpost a ha)⟩
  · exact fun atoms hmem => h.pending atoms ((hpending atoms).1 hmem)

/-- The labels of settled atoms are finished. -/
theorem finished_of_mem_labels {atoms : List Atom} (h : ∀ a ∈ atoms, r.Settled s a)
    (hnext : next ∈ (r.labels atoms).toList) :
    ∃ record, s.nodes.get? next = some (.finished record) := by
  obtain ⟨a, ha, hlabel⟩ := mem_labels_iff.1 hnext
  obtain ⟨σ, record, hselect, hnode, _⟩ := h a ha
  rw [labelOf?_of_select hselect] at hlabel
  cases hlabel
  exact ⟨record, hnode⟩

/-- What a record names is finished when what the package needs is settled. -/
theorem Describes.finished_of_needs (h : r.Describes σ required record)
    (hneeds : ∀ a ∈ required.runtime ++ required.build, r.Settled s a)
    (hnext : next ∈ record.buildDependencies ∨ next ∈ record.runtimeDependencies) :
    ∃ record, s.nodes.get? next = some (.finished record) := by
  rw [h.build, h.runtime] at hnext
  rcases hnext with hbuild | hruntime
  · exact finished_of_mem_labels (fun a ha => hneeds a (List.mem_append_right _ ha)) hbuild
  · exact finished_of_mem_labels (fun a ha => hneeds a (List.mem_append_left _ ha)) hruntime

/-! ## Coherent states -/

/-- What holds throughout a search for atoms, while some post-dependencies are in flight and
others wait. -/
structure Coherent (r : Resolver) (roots : List Atom) (flight : List (String × List Atom))
    (s : SearchState) : Prop where
  explained : ∀ label record, s.nodes.get? label = some (.finished record) →
    ∃ a σ required, Reached r roots a ∧ r.select a = .ok σ ∧ σ.label = label ∧
      r.Explains s (flight ++ s.waiting) σ required record
  met : ∀ e ∈ flight ++ s.waiting, s.nodes.get? e.1 ≠ none
  acyclic : WellFounded fun next label => s.Needs label next

/-- The empty state is coherent, with nothing in flight. -/
theorem coherent_empty (r : Resolver) (roots : List Atom) :
    r.Coherent roots [] .empty := by
  refine ⟨nofun, nofun, ⟨fun label => .intro label ?_⟩⟩
  rintro next ⟨record, hnode, _⟩
  cases hnode

/-- What a finished record needs is finished as well. -/
theorem Coherent.finished_of_needs (h : r.Coherent roots flight s) (hneeds : s.Needs label next) :
    ∃ record, s.nodes.get? next = some (.finished record) := by
  obtain ⟨record, hnode, hnext⟩ := hneeds
  obtain ⟨_, _, _, _, _, _, hexplains⟩ := h.explained label record hnode
  exact hexplains.describes.finished_of_needs hexplains.needs hnext

/-! ## Steps -/

/-- Beginning a label that was not met finishes nothing. -/
theorem finished_enter_iff (hlabel : s.nodes.get? label = none) {other : String} :
    (s.enter label post).nodes.get? other = some (.finished record) ↔
      s.nodes.get? other = some (.finished record) := by
  rw [SearchState.get?_enter]
  by_cases hother : other = label
  · simp [hother, hlabel]
  · rw [if_neg hother]

/-- Beginning a label preserves coherence. -/
theorem Coherent.enter (h : r.Coherent roots flight s) (hlabel : s.nodes.get? label = none)
    (post : List Atom) : r.Coherent roots flight (s.enter label post) := by
  have hwaiting := s.waiting_enter label post
  refine ⟨?_, ?_, ?_⟩
  · intro other record hnode
    rw [finished_enter_iff hlabel] at hnode
    obtain ⟨a, σ, required, hreached, hselect, rfl, hexplains⟩ := h.explained other record hnode
    have hne : σ.label ≠ label := by
      rintro rfl
      rw [hlabel] at hnode
      cases hnode
    refine ⟨a, σ, required, hreached, hselect, rfl, hexplains.mono ?_ ?_⟩
    · rintro b ⟨τ, record', hselect', hnode', hversion⟩
      exact ⟨τ, record', hselect', (finished_enter_iff hlabel).2 hnode', hversion⟩
    · intro atoms
      rw [hwaiting]
      split <;> simp [hne]
  · intro e he
    rw [hwaiting, ← List.append_assoc] at he
    rw [SearchState.get?_enter]
    split
    · exact Option.some_ne_none _
    · next hne =>
      rcases List.mem_append.1 he with hmem | hmem
      · exact h.met e hmem
      · split at hmem
        · exact absurd hmem List.not_mem_nil
        · exact absurd (congrArg Prod.fst (List.mem_singleton.1 hmem)) hne
  · refine Subrelation.wf ?_ h.acyclic
    rintro next other ⟨record, hnode, hnext⟩
    exact ⟨record, (finished_enter_iff hlabel).1 hnode, hnext⟩

/-- Of a label that is begun exactly its post-dependencies are pending, if it has any. -/
theorem Coherent.pending_iff (h : r.Coherent roots flight s) (hlabel : s.nodes.get? label = none)
    (hgrows : Grows (s.enter label post) u) {atoms : List Atom} :
    (label, atoms) ∈ flight ++ u.waiting ↔ atoms = post ∧ post ≠ [] := by
  obtain ⟨new, hnew, hunmet⟩ := hgrows.waiting
  have hold : (label, atoms) ∉ flight ++ s.waiting := fun hmem => h.met _ hmem hlabel
  have hlate : (label, atoms) ∉ new := by
    intro hmem
    have hnone := hunmet _ hmem
    rw [SearchState.get?_enter, if_pos rfl] at hnone
    cases hnone
  rw [hnew, s.waiting_enter, ← List.append_assoc, ← List.append_assoc, List.mem_append,
    List.mem_append]
  by_cases hpost : post = []
  · simp [hold, hlate, hpost]
  · simp [hold, hlate, hpost]

/-- A label that is still in flight is no finished one. -/
theorem ne_of_begun {begun : String} (hbegun : u.nodes.get? begun = some .begun)
    (h : u.nodes.get? label = some (.finished record)) : label ≠ begun := by
  rintro rfl
  rw [hbegun] at h
  cases h

/-- Finishing a label that was begun keeps what was finished before. -/
theorem Settled.finish (hbegun : u.nodes.get? label = some .begun) (h : r.Settled u a) :
    r.Settled (u.finish label record) a := by
  obtain ⟨σ, found, hselect, hnode, hversion⟩ := h
  have hnode' : (u.finish label record).nodes.get? σ.label = some (.finished found) := by
    rw [SearchState.get?_finish, if_neg (ne_of_begun hbegun hnode), hnode]
  exact ⟨σ, found, hselect, hnode', hversion⟩

/-- A label that is finished after everything that it needs is explained: its
post-dependencies are pending, unless there are none. -/
theorem Coherent.explains_finish (h : r.Coherent roots flight s)
    (hlabel : s.nodes.get? σ.label = none) (hdescribes : r.Describes σ required record)
    (hpost : record.postDependencies = []) (hgrows : Grows (s.enter σ.label required.post) u)
    (hneeds : ∀ b ∈ required.runtime ++ required.build, r.Settled t b) :
    r.Explains t (flight ++ u.waiting) σ required record := by
  refine ⟨hdescribes, hneeds, ?_, fun atoms hmem => ((h.pending_iff hlabel hgrows).1 hmem).1⟩
  by_cases hnil : required.post = []
  · rw [hnil]
    exact Or.inr ⟨hpost, nofun⟩
  · exact Or.inl ((h.pending_iff hlabel hgrows).2 ⟨rfl, hnil⟩)

/-- The label that is finished last is needed by none, so what it needs makes no circle. -/
theorem Coherent.acyclic_finish (h : r.Coherent roots flight u)
    (hbegun : u.nodes.get? σ.label = some .begun) (hdescribes : r.Describes σ required record)
    (hneeds : ∀ b ∈ required.runtime ++ required.build, r.Settled u b) :
    WellFounded fun next label => (u.finish σ.label record).Needs label next := by
  refine @wellFounded_of_top _ _ _ σ.label h.acyclic ?_ ?_
  · rintro other next ⟨found, hnode, hnext⟩ hother
    rw [SearchState.get?_finish, if_neg hother] at hnode
    exact ⟨found, hnode, hnext⟩
  · rintro other next ⟨found, hnode, hnext⟩
    rw [SearchState.get?_finish] at hnode
    split at hnode
    · cases hnode
      obtain ⟨_, hfinished⟩ := hdescribes.finished_of_needs hneeds hnext
      exact ne_of_begun hbegun hfinished
    · obtain ⟨_, hfinished⟩ := h.finished_of_needs ⟨found, hnode, hnext⟩
      exact ne_of_begun hbegun hfinished

/-- Finishing a label after everything that it needs preserves coherence. -/
theorem Coherent.finish (hs : r.Coherent roots flight s) (hu : r.Coherent roots flight u)
    (hreached : Reached r roots a) (hselect : r.select a = .ok σ)
    (hlabel : s.nodes.get? σ.label = none) (hdescribes : r.Describes σ required record)
    (hpost : record.postDependencies = []) (hgrows : Grows (s.enter σ.label required.post) u)
    (hneeds : ∀ b ∈ required.runtime ++ required.build, r.Settled u b) :
    r.Coherent roots flight (u.finish σ.label record) := by
  have hbegun : u.nodes.get? σ.label = some .begun := by
    rw [hgrows.begun, SearchState.get?_enter, if_pos rfl]
  have hsettled : ∀ b, r.Settled u b → r.Settled (u.finish σ.label record) b :=
    fun b => Settled.finish hbegun
  refine ⟨?_, ?_, hu.acyclic_finish hbegun hdescribes hneeds⟩
  · intro other found hnode
    rw [SearchState.get?_finish] at hnode
    split at hnode
    · next heq =>
      cases hnode
      have hexplains : r.Explains (u.finish σ.label record) (flight ++ u.waiting) σ required
          record :=
        hs.explains_finish hlabel hdescribes hpost hgrows fun b hb => hsettled b (hneeds b hb)
      exact ⟨a, σ, required, hreached, hselect, heq.symm, hexplains⟩
    · obtain ⟨b, τ, required', hb, hτ, rfl, hexplains⟩ := hu.explained other found hnode
      exact ⟨b, τ, required', hb, hτ, rfl, hexplains.mono hsettled fun _ => Iff.rfl⟩
  · intro e he
    rw [SearchState.get?_finish]
    split
    · exact Option.some_ne_none _
    · exact hu.met e he

/-! ## Runs -/

/-- A search preserves coherence. -/
theorem Coherent.search {atoms : List Atom} (hsearch : Search r atoms s t)
    (hatoms : ∀ a ∈ atoms, Reached r roots a) (h : r.Coherent roots flight s) :
    r.Coherent roots flight t := by
  induction hsearch with
  | done s => exact h
  | known _ _ _ _ ih => exact ih (List.forall_mem_cons.1 hatoms).2 h
  | expanded hselect hnode hdescribes hpost hbelow _ ihBelow ihRest =>
    obtain ⟨hreached, hrest⟩ := List.forall_mem_cons.1 hatoms
    refine ihRest hrest ?_
    have hentered := ihBelow (hdescribes.reached hreached hselect) (h.enter hnode _)
    exact h.finish hentered hreached hselect hnode hdescribes hpost hbelow.grows hbelow.settled

/-- Taking the first of those that wait preserves coherence while they are in flight. -/
theorem Coherent.take {atoms : List Atom} {rest : List (String × List Atom)}
    (h : r.Coherent roots [] s) (hwaiting : s.waiting = (label, atoms) :: rest) :
    r.Coherent roots [(label, atoms)] { s with waiting := rest } := by
  refine ⟨?_, ?_, h.acyclic⟩
  · intro other record hnode
    obtain ⟨a, σ, required, hreached, hselect, rfl, hexplains⟩ := h.explained other record hnode
    refine ⟨a, σ, required, hreached, hselect, rfl, hexplains.mono (fun _ => id) ?_⟩
    simp [hwaiting]
  · intro e he
    exact h.met e (by simpa [hwaiting] using he)

/-- Entering the post-dependencies that were in flight preserves coherence. -/
theorem Coherent.setPost {atoms : List Atom} (h : r.Coherent roots [(label, atoms)] s)
    (hatoms : ∀ a ∈ atoms, r.Settled s a) :
    r.Coherent roots [] (s.setPost label (r.labels atoms).toList) := by
  have hsettled : ∀ a, r.Settled s a → r.Settled (s.setPost label (r.labels atoms).toList) a :=
    fun _ => Settled.setPost
  refine ⟨?_, ?_, ?_⟩
  · intro other record hnode
    obtain ⟨found, hfound, rfl⟩ := SearchState.finished_of_setPost hnode
    obtain ⟨a, σ, required, hreached, hselect, rfl, hexplains⟩ := h.explained other found hfound
    refine ⟨a, σ, required, hreached, hselect, rfl, ?_⟩
    rw [SearchState.waiting_setPost, List.nil_append]
    by_cases hlabel : σ.label = label
    · obtain rfl : atoms = required.post :=
        hexplains.pending atoms (by rw [hlabel]; exact List.mem_cons_self)
      rw [if_pos hlabel]
      exact ⟨hexplains.describes.withPost _, fun a ha => hsettled a (hexplains.needs a ha),
        Or.inr ⟨rfl, fun a ha => hsettled a (hatoms a ha)⟩,
        fun others hmem => hexplains.pending others (List.mem_append_right _ hmem)⟩
    · rw [if_neg hlabel]
      exact hexplains.mono hsettled (by simp [hlabel])
  · intro e he hnode
    exact h.met e (List.mem_append_right _ (by simpa using he)) (SearchState.unmet_of_setPost hnode)
  · refine Subrelation.wf ?_ h.acyclic
    rintro next other ⟨record, hnode, hnext⟩
    obtain ⟨found, hfound, rfl⟩ := SearchState.finished_of_setPost hnode
    refine ⟨found, hfound, ?_⟩
    split at hnext <;> exact hnext

/-! ## Atoms that wait -/

/-- All that waits was reached. -/
def WaitsReached (r : Resolver) (roots : List Atom) (s : SearchState) : Prop :=
  ∀ e ∈ s.waiting, ∀ a ∈ e.2, Reached r roots a

/-- What starts to wait in a search was reached when the atoms were. -/
theorem WaitsReached.search {atoms : List Atom} (hsearch : Search r atoms s t)
    (hatoms : ∀ a ∈ atoms, Reached r roots a) (h : r.WaitsReached roots s) :
    r.WaitsReached roots t := by
  induction hsearch with
  | done s => exact h
  | known _ _ _ _ ih => exact ih (List.forall_mem_cons.1 hatoms).2 h
  | @expanded _ _ σ required _ s u _ hselect _ hdescribes _ _ _ ihBelow ihRest =>
    obtain ⟨hreached, hrest⟩ := List.forall_mem_cons.1 hatoms
    refine ihRest hrest (ihBelow (hdescribes.reached hreached hselect) ?_)
    intro e he
    rw [s.waiting_enter] at he
    rcases List.mem_append.1 he with hmem | hmem
    · exact h e hmem
    · split at hmem
      · exact absurd hmem List.not_mem_nil
      · rw [List.mem_singleton.1 hmem]
        exact fun b hb => .required hreached hselect hdescribes.requires (Or.inr (Or.inr hb))

/-- Draining one label leaves only reached atoms in the queue. -/
theorem WaitsReached.step (hstep : DrainStep r s t) (h : r.WaitsReached roots s) :
    r.WaitsReached roots t := by
  obtain ⟨hwaiting, hsearch⟩ := hstep
  rw [WaitsReached, hwaiting] at h
  obtain ⟨hfirst, hrest⟩ := List.forall_mem_cons.1 h
  rw [WaitsReached, SearchState.waiting_setPost]
  exact WaitsReached.search hsearch hfirst hrest

/-! ## Post-dependencies -/

/-- Searching the post-dependencies of one label preserves coherence. -/
theorem Coherent.step (hstep : DrainStep r s t) (hwaits : r.WaitsReached roots s)
    (h : r.Coherent roots [] s) : r.Coherent roots [] t := by
  obtain ⟨hwaiting, hsearch⟩ := hstep
  have hatoms := hwaits _ (hwaiting ▸ List.mem_cons_self)
  exact ((h.take hwaiting).search hsearch hatoms).setPost hsearch.settled

/-- Searching all post-dependencies preserves coherence. -/
theorem Coherent.steps (hsteps : Relation.ReflTransGen (DrainStep r) s t)
    (hwaits : r.WaitsReached roots s) (h : r.Coherent roots [] s) :
    r.WaitsReached roots t ∧ r.Coherent roots [] t := by
  induction hsteps with
  | refl => exact ⟨hwaits, h⟩
  | tail _ hstep ih => exact ⟨ih.1.step hstep, ih.2.step hstep ih.1⟩

end Resolver
end EbuildGraph
