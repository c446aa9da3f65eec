import EbuildGraph.Proofs.Success
import EbuildGraph.Resolver.Search
import Mathlib.Logic.Relation

/-!
# Steps of the search

What a successful search does is said once, without its fuel.  Each atom finds its label
finished with the version that is selected, or the label is begun, everything that the
package requires is searched, and the label is finished.  The state only grows on the way:
what was finished stays as it is and what was begun stays begun.

Main definitions:

- {lit}`Resolver.Describes`: what the record of a selected package says.
- {lit}`Resolver.Search`: a successful search for atoms, from state to state.
- {lit}`Resolver.DrainStep`: the post-dependencies of one label searched.
- {lit}`SearchState.Idle`: a state in which nothing is begun and unfinished.

Main results:

- Theorems {lit}`search_of_visitAll` and {lit}`steps_of_drain`: whatever succeeds is such a
  search.
- Theorems {lit}`Search.grows` and {lit}`Search.settled`: what a search keeps and what it adds.
-/

namespace EbuildGraph
namespace Resolver

variable {r : Resolver} {a : Atom} {σ : Selection} {s t u : SearchState} {label other : String}
  {record : Record} {required : Requirements}

/-! ## States -/

namespace SearchState

/-- Marks a label as begun and lets its post-dependencies wait. -/
def enter (s : SearchState) (label : String) (post : List Atom) : SearchState :=
  (s.begin label).await label post

@[simp]
theorem get?_empty (label : String) : SearchState.empty.nodes.get? label = none :=
  rfl

@[simp]
theorem nodes_await (s : SearchState) (label : String) (post : List Atom) :
    (s.await label post).nodes = s.nodes := by
  unfold await
  split <;> rfl

/-- Entering a label begins it and leaves every other label as it is. -/
theorem get?_enter (s : SearchState) (label other : String) (post : List Atom) :
    (s.enter label post).nodes.get? other =
      if other = label then some .begun else s.nodes.get? other := by
  rw [enter, nodes_await]
  exact NameMap.get?_insert s.nodes label other .begun

/-- Finishing a label records it and leaves every other label as it is. -/
theorem get?_finish (s : SearchState) (label other : String) (record : Record) :
    (s.finish label record).nodes.get? other =
      if other = label then some (.finished record) else s.nodes.get? other :=
  NameMap.get?_insert s.nodes label other (.finished record)

/-- Only what is not empty waits. -/
theorem waiting_enter (s : SearchState) (label : String) (post : List Atom) :
    (s.enter label post).waiting = s.waiting ++ if post = [] then [] else [(label, post)] := by
  unfold enter await begin
  cases post with
  | nil => simp
  | cons a rest => simp

@[simp]
theorem waiting_finish (s : SearchState) (label : String) (record : Record) :
    (s.finish label record).waiting = s.waiting :=
  rfl

@[simp]
theorem waiting_setPost (s : SearchState) (label : String) (labels : List String) :
    (s.setPost label labels).waiting = s.waiting := by
  unfold setPost
  split <;> rfl

/-- Only a finished record changes, and of it only the post-dependencies. -/
theorem get?_setPost (s : SearchState) (label other : String) (labels : List String) :
    (s.setPost label labels).nodes.get? other =
      match s.nodes.get? other with
      | some (.finished record) =>
        some (.finished (if other = label then { record with postDependencies := labels }
          else record))
      | found => found := by
  unfold setPost
  by_cases heq : other = label
  · subst heq
    rcases hnode : s.nodes.get? other with _ | _ | record <;> simp [hnode, get?_finish]
  · split
    · rw [get?_finish, if_neg heq]
      rcases s.nodes.get? other with _ | _ | record <;> simp [heq]
    · rcases s.nodes.get? other with _ | _ | record <;> simp [heq]

/-- Setting post dependencies changes one field of one record. -/
theorem finished_of_setPost {labels : List String}
    (h : (s.setPost label labels).nodes.get? other = some (.finished record)) :
    ∃ found, s.nodes.get? other = some (.finished found) ∧
      record = if other = label then { found with postDependencies := labels } else found := by
  rw [get?_setPost] at h
  split at h
  · next found hfound =>
    cases h
    exact ⟨found, hfound, rfl⟩
  · next hnone => exact absurd h (hnone record)

/-- Setting post dependencies begins no label. -/
theorem begun_of_setPost {labels : List String}
    (h : (s.setPost label labels).nodes.get? other = some .begun) :
    s.nodes.get? other = some .begun := by
  rw [get?_setPost] at h
  split at h
  · cases h
  · exact h

/-- Setting post dependencies removes no label. -/
theorem unmet_of_setPost {labels : List String}
    (h : (s.setPost label labels).nodes.get? other = none) : s.nodes.get? other = none := by
  rw [get?_setPost] at h
  split at h
  · cases h
  · exact h

end SearchState

/-! ## Labels of atoms -/

/-- The label of the package selected for an atom. -/
def labelOf? (r : Resolver) (a : Atom) : Option String :=
  (r.select a).toOption.map Selection.label

/-- The label of an atom is the label of the package selected for it. -/
theorem labelOf?_eq_some_iff :
    r.labelOf? a = some label ↔ ∃ σ, r.select a = .ok σ ∧ σ.label = label := by
  simp [labelOf?, toOption_eq_some_iff]

theorem labelOf?_of_select (h : r.select a = .ok σ) : r.labelOf? a = some σ.label :=
  labelOf?_eq_some_iff.2 ⟨σ, h, rfl⟩

/-- The labels of the packages selected for atoms. -/
def labels (r : Resolver) (atoms : List Atom) : NameSet :=
  NameSet.ofList (atoms.filterMap r.labelOf?)

/-- The labels of a list are those of the atoms in it that have one. -/
theorem mem_labels_iff {atoms : List Atom} :
    label ∈ r.labels atoms ↔ ∃ a ∈ atoms, r.labelOf? a = some label := by
  rw [labels, NameSet.mem_ofList, List.mem_filterMap]

theorem labels_cons {rest : List Atom} (h : r.labelOf? a = some label) :
    r.labels (a :: rest) = (r.labels rest).insert label := by
  refine NameSet.ext_mem fun other => ?_
  simp only [mem_labels_iff, NameSet.mem_insert, List.mem_cons, exists_eq_or_imp, h,
    Option.some.injEq]
  exact or_congr_left eq_comm

/-! ## Records of packages -/

/-- A record says what a package is and names the labels of what it requires, except for its
post-dependencies, which are entered later. -/
structure Describes (r : Resolver) (σ : Selection) (required : Requirements) (record : Record) :
    Prop where
  requires : r.requirements σ.package = .ok required
  name : record.name = σ.package.name
  mainSlot : record.mainSlot = σ.package.mainSlot
  ebuildPath : record.ebuildPath = σ.path.text
  version : record.version = σ.package.version.text
  build : record.buildDependencies = (r.labels required.build).toList
  localSources : σ.package.localSources.map NameSet.toList = .ok record.localSources
  runtime : record.runtimeDependencies = (r.labels required.runtime).toList
  sourceFiles : σ.package.sourceFiles r.tree = .ok record.sourceFiles

/-- Of one package there is one record for any post-dependencies. -/
theorem Describes.unique {other : Record} {required' : Requirements}
    (h : r.Describes σ required record) (h' : r.Describes σ required' other)
    (hpost : record.postDependencies = other.postDependencies) : record = other := by
  obtain rfl : required = required' := Except.ok.inj (h.requires.symm.trans h'.requires)
  have hlocal := Except.ok.inj (h.localSources.symm.trans h'.localSources)
  have hsources := Except.ok.inj (h.sourceFiles.symm.trans h'.sourceFiles)
  cases record
  cases other
  simp only [Record.mk.injEq]
  exact ⟨h.name.trans h'.name.symm, h.mainSlot.trans h'.mainSlot.symm,
    h.ebuildPath.trans h'.ebuildPath.symm, h.version.trans h'.version.symm,
    h.build.trans h'.build.symm, hlocal, h.runtime.trans h'.runtime.symm, hsources, hpost⟩

/-- A record describes its selection whatever its post dependencies are. -/
theorem Describes.withPost (h : r.Describes σ required record) (labels : List String) :
    r.Describes σ required { record with postDependencies := labels } :=
  ⟨h.requires, h.name, h.mainSlot, h.ebuildPath, h.version, h.build, h.localSources, h.runtime,
    h.sourceFiles⟩

/-! ## Searches -/

/-- A successful search for atoms, one after the other. -/
inductive Search (r : Resolver) : List Atom → SearchState → SearchState → Prop
  | done (s : SearchState) : Search r [] s s
  | known {a : Atom} {rest : List Atom} {σ : Selection} {record : Record} {s t : SearchState}
      (hselect : r.select a = .ok σ) (hnode : s.nodes.get? σ.label = some (.finished record))
      (hversion : record.version = σ.package.version.text) (hrest : Search r rest s t) :
      Search r (a :: rest) s t
  | expanded {a : Atom} {rest : List Atom} {σ : Selection} {required : Requirements}
      {record : Record} {s u t : SearchState} (hselect : r.select a = .ok σ)
      (hnode : s.nodes.get? σ.label = none) (hdescribes : r.Describes σ required record)
      (hpost : record.postDependencies = [])
      (hbelow : Search r (required.runtime ++ required.build) (s.enter σ.label required.post) u)
      (hrest : Search r rest (u.finish σ.label record) t) : Search r (a :: rest) s t

/-- Searches compose along the list of atoms. -/
theorem Search.append {xs ys : List Atom} (h : Search r xs s u) (h' : Search r ys u t) :
    Search r (xs ++ ys) s t := by
  induction h with
  | done s => exact h'
  | known hselect hnode hversion _ ih => exact .known hselect hnode hversion (ih h')
  | expanded hselect hnode hdescribes hpost hbelow _ _ ih =>
    exact .expanded hselect hnode hdescribes hpost hbelow (ih h')

/-- A visit finds its label finished with the version that is selected, or it begins the
label, expands the package and finishes the label. -/
theorem visit_succ_eq_ok_iff {fuel : Nat} :
    r.visit (fuel + 1) a s = .ok (label, t) ↔ ∃ σ, r.select a = .ok σ ∧ label = σ.label ∧
      ((∃ record, s.nodes.get? σ.label = some (.finished record) ∧
          record.version = σ.package.version.text ∧ t = s) ∨
        (s.nodes.get? σ.label = none ∧ ∃ record u,
          r.expand (r.visit fuel) σ (s.begin σ.label) = .ok (record, u) ∧
            t = u.finish σ.label record)) := by
  rw [visit, bind_eq_ok_iff]
  refine exists_congr fun σ => and_congr_right fun hselect => ?_
  dsimp only
  rcases hnode : s.nodes.get? σ.label with _ | _ | record
  · simp only [bind_eq_ok_iff, mapError_eq_ok_iff]
    constructor
    · rintro ⟨⟨record, u⟩, hexpand, heq⟩
      cases heq
      exact ⟨rfl, Or.inr ⟨trivial, record, u, hexpand, rfl⟩⟩
    · rintro ⟨rfl, ⟨record, hfinished, _⟩ | ⟨_, record, u, hexpand, rfl⟩⟩
      · cases hfinished
      · exact ⟨(record, u), hexpand, rfl⟩
  · simp [throw, throwThe, MonadExceptOf.throw]
  · by_cases hversion : record.version = σ.package.version.text
    · simp [hversion, pure, Except.pure, eq_comm]
    · simp [hversion, throw, throwThe, MonadExceptOf.throw]

/-- A visitor gives the label of an atom, and what it does is a search for the atom. -/
def IsSearch (r : Resolver) (visitor : Visitor) : Prop :=
  ∀ a s label t, visitor a s = .ok (label, t) → r.labelOf? a = some label ∧ Search r [a] s t

section
variable {visitor : Visitor} {atoms : List Atom}

/-- What succeeds for atoms one after the other is a search for them. -/
theorem search_of_visitAll (hvisitor : IsSearch r visitor) {labels : NameSet}
    (h : visitAll visitor atoms s = .ok (labels, t)) :
    labels = r.labels atoms ∧ Search r atoms s t := by
  induction atoms generalizing labels s with
  | nil =>
    cases h
    exact ⟨rfl, .done _⟩
  | cons a rest ih =>
    obtain ⟨⟨label, u⟩, hfirst, h⟩ := bind_eq_ok_iff.1 h
    obtain ⟨⟨others, t'⟩, hrest, heq⟩ := bind_eq_ok_iff.1 h
    cases heq
    obtain ⟨hlabel, hsearch⟩ := hvisitor a s label u hfirst
    obtain ⟨rfl, hsearchRest⟩ := ih hrest
    exact ⟨(labels_cons hlabel).symm, hsearch.append hsearchRest⟩

/-- An expanded package is described, and all that it requires is searched. -/
theorem search_of_expand (hvisitor : IsSearch r visitor)
    (h : r.expand visitor σ (s.begin σ.label) = .ok (record, t)) :
    ∃ required, r.Describes σ required record ∧ record.postDependencies = [] ∧
      Search r (required.runtime ++ required.build) (s.enter σ.label required.post) t := by
  obtain ⟨required, hrequired, h⟩ := bind_eq_ok_iff.1 h
  obtain ⟨⟨runtime, u⟩, hruntime, h⟩ := bind_eq_ok_iff.1 h
  obtain ⟨⟨build, t'⟩, hbuild, h⟩ := bind_eq_ok_iff.1 h
  obtain ⟨localSources, hlocal, h⟩ := bind_eq_ok_iff.1 h
  obtain ⟨sourceFiles, hsources, heq⟩ := bind_eq_ok_iff.1 h
  cases heq
  obtain ⟨rfl, hsearch⟩ := search_of_visitAll hvisitor hruntime
  obtain ⟨rfl, hsearch'⟩ := search_of_visitAll hvisitor hbuild
  refine ⟨required, ?_, rfl, hsearch.append hsearch'⟩
  exact ⟨hrequired, rfl, rfl, rfl, rfl, rfl, map_eq_ok_iff.2 ⟨localSources, hlocal, rfl⟩, rfl,
    hsources⟩

/-- Each visit is a search, however much fuel there is. -/
theorem isSearch_visit (r : Resolver) (fuel : Nat) : IsSearch r (r.visit fuel) := by
  induction fuel with
  | zero => exact fun a s label t h => nomatch h
  | succ fuel ih =>
    intro a s label t h
    obtain ⟨σ, hselect, rfl, ⟨record, hnode, hversion, rfl⟩ | ⟨hnode, record, u, hexpand, rfl⟩⟩ :=
      visit_succ_eq_ok_iff.1 h
    · exact ⟨labelOf?_of_select hselect, .known hselect hnode hversion (.done _)⟩
    · obtain ⟨required, hdescribes, hpost, hbelow⟩ := search_of_expand ih hexpand
      exact ⟨labelOf?_of_select hselect,
        .expanded hselect hnode hdescribes hpost hbelow (.done _)⟩

/-! ## Post-dependencies -/

/-- The post-dependencies of the label that waits first are searched, those found on the way
wait behind the others, and their labels are entered in the record of that label. -/
inductive DrainStep (r : Resolver) : SearchState → SearchState → Prop
  | intro {label : String} {atoms : List Atom} {rest : List (String × List Atom)}
      {s u : SearchState} (hwaiting : s.waiting = (label, atoms) :: rest)
      (hsearch : Search r atoms { s with waiting := rest } u) :
      DrainStep r s (u.setPost label (r.labels atoms).toList)

/-- Draining the queue is a sequence of steps. -/
theorem steps_of_drain (hvisitor : IsSearch r visitor) {fuel : Nat}
    (h : drain visitor fuel s = .ok t) : Relation.ReflTransGen (DrainStep r) s t := by
  induction fuel generalizing s with
  | zero =>
    cases h
    exact .refl
  | succ fuel ih =>
    rw [drain] at h
    split at h
    · cases h
      exact .refl
    next label atoms rest hwaiting =>
    obtain ⟨⟨labels, u⟩, hvisit, hdrain⟩ := bind_eq_ok_iff.1 h
    obtain ⟨rfl, hsearch⟩ := search_of_visitAll hvisitor (mapError_eq_ok_iff.1 hvisit)
    exact .head (.intro hwaiting hsearch) (ih hdrain)

end

/-! ## What a search keeps -/

/-- What was finished stays as it is, what was begun stays begun, and what starts to wait
belongs to labels that were not met before. -/
structure Grows (s t : SearchState) : Prop where
  finished : ∀ label record, s.nodes.get? label = some (.finished record) →
    t.nodes.get? label = some (.finished record)
  begun : ∀ label, t.nodes.get? label = some .begun ↔ s.nodes.get? label = some .begun
  waiting : ∃ new, t.waiting = s.waiting ++ new ∧ ∀ e ∈ new, s.nodes.get? e.1 = none

/-- A state grows into itself. -/
theorem Grows.refl (s : SearchState) : Grows s s :=
  ⟨fun _ _ h => h, fun _ => Iff.rfl, [], by simp, by simp⟩

/-- A label that was met stays met. -/
theorem Grows.unmet (h : Grows s t) (hlabel : t.nodes.get? label = none) :
    s.nodes.get? label = none := by
  rcases hnode : s.nodes.get? label with _ | _ | record
  · rfl
  · rw [(h.begun label).2 hnode] at hlabel
    cases hlabel
  · rw [h.finished label record hnode] at hlabel
    cases hlabel

/-- Growth goes on from state to state. -/
theorem Grows.trans (h : Grows s t) (h' : Grows t u) : Grows s u := by
  obtain ⟨new, hnew, hunmet⟩ := h.waiting
  obtain ⟨new', hnew', hunmet'⟩ := h'.waiting
  refine ⟨fun label record hnode => h'.finished label record (h.finished label record hnode),
    fun label => (h'.begun label).trans (h.begun label), new ++ new', ?_, ?_⟩
  · rw [hnew', hnew, List.append_assoc]
  · intro e he
    rcases List.mem_append.1 he with hmem | hmem
    · exact hunmet e hmem
    · exact h.unmet (hunmet' e hmem)

/-- Beginning a label that was not met and finishing it leaves all others as they are. -/
theorem Grows.of_enter {post : List Atom} (hlabel : s.nodes.get? label = none)
    (h : Grows (s.enter label post) u) : Grows s (u.finish label record) := by
  have hne : ∀ other, s.nodes.get? other ≠ none → other ≠ label := by
    rintro other hother rfl
    exact hother hlabel
  obtain ⟨new, hnew, hunmet⟩ := h.waiting
  refine ⟨?_, ?_, (if post = [] then [] else [(label, post)]) ++ new, ?_, ?_⟩
  · intro other record' hnode
    have hother : other ≠ label := hne other (by simp [hnode])
    rw [SearchState.get?_finish, if_neg hother]
    exact h.finished other record' (by rw [SearchState.get?_enter, if_neg hother, hnode])
  · intro other
    rw [SearchState.get?_finish]
    by_cases hother : other = label
    · simp [hother, hlabel]
    · rw [if_neg hother, h.begun, SearchState.get?_enter, if_neg hother]
  · rw [SearchState.waiting_finish, hnew, SearchState.waiting_enter, List.append_assoc]
  · intro e he
    rcases List.mem_append.1 he with hmem | hmem
    · split at hmem
      · exact absurd hmem List.not_mem_nil
      · rw [List.mem_singleton.1 hmem]
        exact hlabel
    · have hnode := hunmet e hmem
      rw [SearchState.get?_enter] at hnode
      split at hnode
      · cases hnode
      · exact hnode

/-- A search only adds to what is recorded. -/
theorem Search.grows {atoms : List Atom} (h : Search r atoms s t) : Grows s t := by
  induction h with
  | done s => exact .refl s
  | known _ _ _ _ ih => exact ih
  | expanded _ hnode _ _ _ _ ihBelow ihRest => exact (Grows.of_enter hnode ihBelow).trans ihRest

/-! ## What a search adds -/

/-- The label of an atom is finished with the version that is selected for the atom. -/
def Settled (r : Resolver) (s : SearchState) (a : Atom) : Prop :=
  ∃ σ record, r.select a = .ok σ ∧ s.nodes.get? σ.label = some (.finished record) ∧
    record.version = σ.package.version.text

/-- Atoms stay settled as the state grows. -/
theorem Settled.grows (h : r.Settled s a) (hgrows : Grows s t) : r.Settled t a := by
  obtain ⟨σ, record, hselect, hnode, hversion⟩ := h
  exact ⟨σ, record, hselect, hgrows.finished _ _ hnode, hversion⟩

/-- Post-dependencies do not change which versions there are. -/
theorem Settled.setPost {labels : List String} (h : r.Settled s a) :
    r.Settled (s.setPost label labels) a := by
  obtain ⟨σ, record, hselect, hnode, hversion⟩ := h
  refine ⟨σ, _, hselect, by rw [SearchState.get?_setPost, hnode], ?_⟩
  split
  · exact hversion
  · exact hversion

/-- Everything that is searched for is settled. -/
theorem Search.settled {atoms : List Atom} (h : Search r atoms s t) :
    ∀ a ∈ atoms, r.Settled t a := by
  induction h with
  | done s => exact nofun
  | known hselect hnode hversion hrest ih =>
    refine List.forall_mem_cons.2 ⟨?_, ih⟩
    exact Settled.grows ⟨_, _, hselect, hnode, hversion⟩ hrest.grows
  | @expanded _ _ σ _ record _ u _ hselect hnode hdescribes _ _ hrest _ ih =>
    refine List.forall_mem_cons.2 ⟨?_, ih⟩
    have hfinished : (u.finish σ.label record).nodes.get? σ.label = some (.finished record) := by
      rw [SearchState.get?_finish, if_pos rfl]
    exact Settled.grows ⟨σ, record, hselect, hfinished, hdescribes.version⟩ hrest.grows

/-! ## Between searches -/

/-- Every label that was begun is finished. -/
def SearchState.Idle (s : SearchState) : Prop :=
  ∀ label, s.nodes.get? label ≠ some .begun

/-- In the empty state nothing is begun. -/
theorem SearchState.idle_empty : SearchState.empty.Idle :=
  nofun

/-- A search leaves no label begun that was not begun before. -/
theorem Grows.idle (h : Grows s t) (hs : s.Idle) : t.Idle :=
  fun label hnode => hs label ((h.begun label).1 hnode)

theorem SearchState.Idle.setPost {labels : List String} (h : s.Idle) :
    (s.setPost label labels).Idle :=
  fun other hnode => h other (SearchState.begun_of_setPost hnode)

/-- A step of draining ends with nothing begun, as it starts. -/
theorem DrainStep.idle (h : DrainStep r s t) (hs : s.Idle) : t.Idle := by
  obtain @⟨label, atoms, rest, _, u, _, hsearch⟩ := h
  have htaken : SearchState.Idle { s with waiting := rest } := hs
  exact (hsearch.grows.idle htaken).setPost

/-- Between searches for post-dependencies nothing is begun. -/
theorem idle_of_steps (h : Relation.ReflTransGen (DrainStep r) s t) (hs : s.Idle) : t.Idle := by
  induction h with
  | refl => exact hs
  | tail _ hstep ih => exact hstep.idle ih

end Resolver
end EbuildGraph
