import EbuildGraph.Proofs.Resolver.Bound
import EbuildGraph.Proofs.Resolver.Coherence

/-!
# The bound of the search suffices

Searches nest only below labels that were not met, and only such labels start to wait.
There are no more labels than the bound says, so neither does nesting exhaust the fuel of a
visit, nor do waiting labels exhaust that of the queue.  A resolution is therefore the same
as a search for the atoms followed by searches for post-dependencies until none wait.

Main definition:

- {lit}`Resolver.Runs`: a whole successful run, without its fuel.

Main results:

- Theorem {lit}`Search.visitAll_eq_ok`: with enough fuel a search succeeds.
- Theorem {lit}`resolve_eq_ok_iff_runs`: a resolution succeeds exactly when there is a run.
-/

namespace EbuildGraph
namespace Resolver

variable {r : Resolver} {a : Atom} {σ : Selection} {s t u : SearchState} {label : String}
  {record : Record} {required : Requirements} {atoms roots : List Atom} {fuel : Nat}

/-! ## What is left to do -/

/-- The labels that a search can come to and has not met. -/
def unmet (r : Resolver) (roots : List Atom) (s : SearchState) : List String :=
  (r.possibleLabels roots).filter fun label => s.nodes.get? label = none

/-- How many labels can still be met or wait. -/
def backlog (r : Resolver) (roots : List Atom) (s : SearchState) : Nat :=
  (r.unmet roots s).length + s.waiting.length

/-- The more labels were met, the fewer are left. -/
theorem length_unmet_le (h : ∀ label, t.nodes.get? label = none → s.nodes.get? label = none) :
    (r.unmet roots t).length ≤ (r.unmet roots s).length := by
  refine (List.monotone_filter_right _ fun label hlabel => ?_).length_le
  simpa using h label (by simpa using hlabel)

/-- A label that was reached is not left any more once it is begun. -/
theorem length_unmet_enter_lt (ha : Reached r roots a) (hselect : r.select a = .ok σ)
    (hlabel : s.nodes.get? σ.label = none) (post : List Atom) :
    (r.unmet roots (s.enter σ.label post)).length < (r.unmet roots s).length := by
  have hsub : r.unmet roots (s.enter σ.label post) = (r.unmet roots s).filter (· != σ.label) := by
    simp only [unmet, List.filter_filter]
    refine List.filter_congr fun other _ => ?_
    rw [SearchState.get?_enter]
    by_cases hother : other = σ.label
    · simp [hother]
    · simp [hother]
  have hmem : σ.label ∈ r.unmet roots s :=
    List.mem_filter.2 ⟨label_mem_possibleLabels ha.isQualified hselect, by simp [hlabel]⟩
  rw [hsub]
  exact List.length_filter_lt_length_iff_exists.2 ⟨σ.label, hmem, by simp⟩

/-- A search leaves no more to do than there was. -/
theorem Search.backlog_le (h : Search r atoms s t) (hatoms : ∀ a ∈ atoms, Reached r roots a) :
    r.backlog roots t ≤ r.backlog roots s := by
  induction h with
  | done s => exact Nat.le_refl _
  | known _ _ _ _ ih => exact ih (List.forall_mem_cons.1 hatoms).2
  | @expanded a _ σ required record s u _ hselect hnode hdescribes _ _ _ ihBelow ihRest =>
    obtain ⟨hreached, hrest⟩ := List.forall_mem_cons.1 hatoms
    have hlt := length_unmet_enter_lt hreached hselect hnode required.post
    have hwaiting : (s.enter σ.label required.post).waiting.length ≤ s.waiting.length + 1 := by
      rw [s.waiting_enter]
      split <;> simp
    have hfinish : (r.unmet roots (u.finish σ.label record)).length ≤ (r.unmet roots u).length := by
      refine length_unmet_le fun other hother => ?_
      rw [SearchState.get?_finish] at hother
      split at hother
      · cases hother
      · exact hother
    have hrestLe := ihRest hrest
    have hbelowLe := ihBelow (hdescribes.reached hreached hselect)
    simp only [backlog, SearchState.waiting_finish] at *
    omega

/-- Searching the post-dependencies of a label leaves less to do. -/
theorem backlog_step_lt (hstep : DrainStep r s t) (hwaits : r.WaitsReached roots s) :
    r.backlog roots t < r.backlog roots s := by
  obtain @⟨label, atoms, rest, _, u, hwaiting, hsearch⟩ := hstep
  have hle := hsearch.backlog_le (hwaits _ (hwaiting ▸ List.mem_cons_self))
  have hentered : (r.unmet roots (u.setPost label (r.labels atoms).toList)).length ≤
      (r.unmet roots u).length :=
    length_unmet_le fun _ => SearchState.unmet_of_setPost
  have htake : (r.unmet roots { s with waiting := rest }).length = (r.unmet roots s).length := rfl
  have hlength : s.waiting.length = rest.length + 1 := by rw [hwaiting, List.length_cons]
  simp only [backlog, SearchState.waiting_setPost] at *
  omega

/-! ## Searches with fuel -/

/-- Visiting two lists after each other is visiting the one and then the other. -/
theorem visitAll_append {visitor : Visitor} {xs ys : List Atom} {names : NameSet}
    (h : visitAll visitor (xs ++ ys) s = .ok (names, t)) :
    ∃ first u second, visitAll visitor xs s = .ok (first, u) ∧
      visitAll visitor ys u = .ok (second, t) := by
  induction xs generalizing names s with
  | nil => exact ⟨_, s, names, rfl, h⟩
  | cons a rest ih =>
    obtain ⟨⟨label, v⟩, hfirst, h⟩ := bind_eq_ok_iff.1 h
    obtain ⟨⟨others, t'⟩, hrest, heq⟩ := bind_eq_ok_iff.1 h
    cases heq
    obtain ⟨first, u, second, hxs, hys⟩ := ih hrest
    exact ⟨first.insert label, u, second,
      bind_eq_ok_iff.2 ⟨_, hfirst, bind_eq_ok_iff.2 ⟨_, hxs, rfl⟩⟩, hys⟩

/-- A package is expanded to the record that describes it when all that it requires can be
visited. -/
theorem expand_eq_ok {visitor : Visitor} {names : NameSet} (hvisitor : IsSearch r visitor)
    (hdescribes : r.Describes σ required record) (hpost : record.postDependencies = [])
    (hvisit : visitAll visitor (required.runtime ++ required.build)
      (s.enter σ.label required.post) = .ok (names, t)) :
    r.expand visitor σ (s.begin σ.label) = .ok (record, t) := by
  obtain ⟨runtime, u, build, hruntime, hbuild⟩ := visitAll_append hvisit
  obtain ⟨rfl, _⟩ := search_of_visitAll hvisitor hruntime
  obtain ⟨rfl, _⟩ := search_of_visitAll hvisitor hbuild
  obtain ⟨localSources, hlocal, hlocalEq⟩ := map_eq_ok_iff.1 hdescribes.localSources
  have hrecord : record = {
      name := σ.package.name
      mainSlot := σ.package.mainSlot
      ebuildPath := σ.path.text
      version := σ.package.version.text
      buildDependencies := (r.labels required.build).toList
      localSources := localSources.toList
      runtimeDependencies := (r.labels required.runtime).toList
      sourceFiles := record.sourceFiles
      postDependencies := [] } :=
    hdescribes.unique ⟨hdescribes.requires, rfl, rfl, rfl, rfl, rfl,
      map_eq_ok_iff.2 ⟨localSources, hlocal, rfl⟩, rfl, hdescribes.sourceFiles⟩ hpost
  rw [hrecord]
  exact bind_eq_ok_iff.2 ⟨required, hdescribes.requires, bind_eq_ok_iff.2 ⟨_, hruntime,
    bind_eq_ok_iff.2 ⟨_, hbuild, bind_eq_ok_iff.2 ⟨localSources, hlocal,
      bind_eq_ok_iff.2 ⟨_, hdescribes.sourceFiles, rfl⟩⟩⟩⟩⟩

/-- A search succeeds with more fuel than labels are left. -/
theorem Search.visitAll_eq_ok (h : Search r atoms s t) (hatoms : ∀ a ∈ atoms, Reached r roots a)
    (hfuel : (r.unmet roots s).length < fuel) :
    visitAll (r.visit fuel) atoms s = .ok (r.labels atoms, t) := by
  induction h generalizing fuel with
  | done s => rfl
  | @known a rest σ record s t hselect hnode hversion _ ih =>
    obtain ⟨fuel, rfl⟩ : ∃ n, fuel = n + 1 := Nat.exists_eq_add_one_of_ne_zero (by omega)
    have hvisit : r.visit (fuel + 1) a s = .ok (σ.label, s) :=
      visit_succ_eq_ok_iff.2 ⟨σ, hselect, rfl, Or.inl ⟨record, hnode, hversion, rfl⟩⟩
    rw [labels_cons (labelOf?_of_select hselect)]
    exact bind_eq_ok_iff.2 ⟨_, hvisit, bind_eq_ok_iff.2
      ⟨_, ih (List.forall_mem_cons.1 hatoms).2 hfuel, rfl⟩⟩
  | @expanded a rest σ required record s u t hselect hnode hdescribes hpost hbelow _ ihBelow
      ihRest =>
    obtain ⟨fuel, rfl⟩ : ∃ n, fuel = n + 1 := Nat.exists_eq_add_one_of_ne_zero (by omega)
    obtain ⟨hreached, hrest⟩ := List.forall_mem_cons.1 hatoms
    have hlt := length_unmet_enter_lt hreached hselect hnode required.post
    have hexpand := expand_eq_ok (isSearch_visit r fuel) hdescribes hpost
      (ihBelow (hdescribes.reached hreached hselect) (by omega))
    have hvisit : r.visit (fuel + 1) a s = .ok (σ.label, u.finish σ.label record) :=
      visit_succ_eq_ok_iff.2 ⟨σ, hselect, rfl, Or.inr ⟨hnode, record, u, hexpand, rfl⟩⟩
    have hgrows : Grows s (u.finish σ.label record) := .of_enter hnode hbelow.grows
    have hle : (r.unmet roots (u.finish σ.label record)).length ≤ (r.unmet roots s).length :=
      length_unmet_le fun _ => hgrows.unmet
    rw [labels_cons (labelOf?_of_select hselect)]
    exact bind_eq_ok_iff.2 ⟨_, hvisit, bind_eq_ok_iff.2 ⟨_, ihRest hrest (by omega), rfl⟩⟩

/-! ## Post-dependencies with fuel -/

/-- With enough fuel nothing waits in the end. -/
theorem waiting_of_drain {bound : Nat} (hwaits : r.WaitsReached roots s)
    (hbound : r.backlog roots s ≤ bound) (h : drain (r.visit fuel) bound s = .ok t) :
    t.waiting = [] := by
  induction bound generalizing s with
  | zero =>
    cases h
    refine List.length_eq_zero_iff.1 ?_
    simp only [backlog] at hbound
    omega
  | succ bound ih =>
    rw [drain] at h
    split at h
    · next hwaiting =>
      cases h
      exact hwaiting
    next label atoms rest hwaiting =>
    obtain ⟨⟨names, u⟩, hvisit, hdrain⟩ := bind_eq_ok_iff.1 h
    obtain ⟨rfl, hsearch⟩ := search_of_visitAll (isSearch_visit r fuel)
      (mapError_eq_ok_iff.1 hvisit)
    have hstep : DrainStep r s (u.setPost label (r.labels atoms).toList) := .intro hwaiting hsearch
    have hlt := backlog_step_lt hstep hwaits
    exact ih (hwaits.step hstep) (by omega) hdrain

/-- Searches for post-dependencies succeed with enough fuel. -/
theorem drain_eq_ok (hsteps : Relation.ReflTransGen (DrainStep r) s t) (hdone : t.waiting = [])
    {bound : Nat} (hwaits : r.WaitsReached roots s) (hbound : r.backlog roots s ≤ bound)
    (hfuel : r.backlog roots s < fuel) : drain (r.visit fuel) bound s = .ok t := by
  induction hsteps using Relation.ReflTransGen.head_induction_on generalizing bound with
  | refl =>
    cases bound with
    | zero => rfl
    | succ bound => rw [drain, hdone]
  | @head s v hstep _ ih =>
    have hlt := backlog_step_lt hstep hwaits
    have hnext := hwaits.step hstep
    obtain @⟨label, atoms, rest, _, u, hwaiting, hsearch⟩ := hstep
    obtain ⟨bound, rfl⟩ : ∃ n, bound = n + 1 := Nat.exists_eq_add_one_of_ne_zero (by omega)
    have hleft : (r.unmet roots { s with waiting := rest }).length < fuel := by
      have hsame : r.unmet roots { s with waiting := rest } = r.unmet roots s := rfl
      rw [hsame]
      unfold backlog at hfuel
      omega
    have hvisit := hsearch.visitAll_eq_ok (hwaits _ (hwaiting ▸ List.mem_cons_self)) hleft
    rw [drain, hwaiting]
    exact bind_eq_ok_iff.2 ⟨_, mapError_eq_ok_iff.2 hvisit, ih hnext (by omega) (by omega)⟩

/-! ## Runs -/

/-- A search for the atoms, and then searches for post-dependencies until none wait. -/
def Runs (r : Resolver) (roots : List Atom) (t : SearchState) : Prop :=
  ∃ s, Search r roots .empty s ∧ Relation.ReflTransGen (DrainStep r) s t ∧ t.waiting = []

/-- Nothing waits in the empty state. -/
theorem waitsReached_empty (r : Resolver) (roots : List Atom) : r.WaitsReached roots .empty :=
  nofun

/-- A resolution succeeds exactly when there is a run, with the records in which it ends. -/
theorem resolve_eq_ok_iff_runs {m : Records} :
    r.resolve roots = .ok m ↔
      ∃ t, r.Runs roots t ∧ m = Records.propagate (Records.addNestedSources t.records) := by
  have hroots : ∀ a ∈ roots, Reached r roots a := fun _ => .root
  have hempty : r.backlog roots .empty ≤ r.labelBound roots :=
    (List.length_filter_le _ _).trans (r.length_possibleLabels_le roots)
  constructor
  · intro h
    obtain ⟨⟨names, s⟩, hvisit, h⟩ := bind_eq_ok_iff.1 h
    obtain ⟨t, hdrain, heq⟩ := bind_eq_ok_iff.1 h
    obtain ⟨_, hsearch⟩ := search_of_visitAll (isSearch_visit r _) hvisit
    have hle := hsearch.backlog_le hroots
    have hwaits := (waitsReached_empty r roots).search hsearch hroots
    exact ⟨t, ⟨s, hsearch, steps_of_drain (isSearch_visit r _) hdrain,
      waiting_of_drain hwaits (by omega) hdrain⟩, (Except.ok.inj heq).symm⟩
  · rintro ⟨t, ⟨s, hsearch, hsteps, hdone⟩, rfl⟩
    have hle := hsearch.backlog_le hroots
    have hwaits := (waitsReached_empty r roots).search hsearch hroots
    have hvisit : visitAll (r.visit (r.labelBound roots + 1)) roots .empty =
        .ok (r.labels roots, s) :=
      hsearch.visitAll_eq_ok hroots (Nat.lt_succ_of_le hempty)
    exact bind_eq_ok_iff.2 ⟨_, hvisit, bind_eq_ok_iff.2
      ⟨_, drain_eq_ok hsteps hdone hwaits (by omega) (by omega), rfl⟩⟩

end Resolver
end EbuildGraph
