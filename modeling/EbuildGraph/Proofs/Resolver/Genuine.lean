import EbuildGraph.Proofs.Resolver.Causes

/-!
# Genuine failures

A cycle is reported only where there is one.  The labels that are begun while an atom is
visited are those of packages that lead to it, each by what it needs to run or to be built,
so meeting such a label again closes a circle of needs.  Post-dependencies are searched with
nothing begun and are no part of it.  Nor is an inconsistent selection reported unless two
versions of a label were selected.

Main definitions:

- {lit}`Resolver.LeadsTo`: how one selected package leads to the next.
- {lit}`Resolver.IsGenuine`: what a failure says of the atoms that were visited.

Main results:

- Theorem {lit}`Course.endsWell`: a search that begins well ends well.
- Theorem {lit}`isGenuine_of_resolve`: every resolution that fails does so genuinely.
-/

namespace EbuildGraph
namespace Resolver

open Event (visited visited_append visited_cons_visit visited_ofEnter)

variable {r : Resolver} {a b : Atom} {σ τ : Selection} {s t u : SearchState} {label : String}
  {record : Record} {required : Requirements} {atoms roots met : List Atom} {depth : Nat}
  {err cause : Error} {events events' : List Event} {outcome : Except Error SearchState}

/-! ## Selected packages -/

/-- A package is selected for an atom that was met. -/
def IsSelected (r : Resolver) (met : List Atom) (σ : Selection) : Prop :=
  ∃ a ∈ met, r.select a = .ok σ

/-- A package needs an atom that was met and for which the next one is selected. -/
def LeadsTo (r : Resolver) (met : List Atom) (σ τ : Selection) : Prop :=
  ∃ a ∈ met, r.IsNeed σ.package a ∧ r.select a = .ok τ

/-- A package with the label was selected, and it leads to one that needs the atom. -/
def NeededBelow (r : Resolver) (met : List Atom) (label : String) (a : Atom) : Prop :=
  ∃ σ τ, r.IsSelected met σ ∧ σ.label = label ∧
    Relation.ReflTransGen (r.LeadsTo met) σ τ ∧ r.IsNeed τ.package a

/-- What is needed below a label needs in turn what is below the label as well. -/
theorem NeededBelow.step (h : r.NeededBelow met label a) (ha : a ∈ met)
    (hselect : r.select a = .ok σ) (hb : r.IsNeed σ.package b) : r.NeededBelow met label b := by
  obtain ⟨first, last, hfirst, hlabel, hleads, hneed⟩ := h
  exact ⟨first, σ, hfirst, hlabel, hleads.tail ⟨a, ha, hneed, hselect⟩, hb⟩

/-! ## Genuine failures -/

/-- What a failure says of the atoms that were met.  Its cause is a cycle only if a package
with the label leads, in one step or more, to one with that label again, and an inconsistent
selection only if packages of two versions with the label were selected. -/
structure IsGenuine (r : Resolver) (met : List Atom) (err : Error) : Prop where
  circle : ∀ label, err.innermostCause = .cycle label →
    ∃ σ τ, r.IsSelected met σ ∧ σ.label = label ∧ τ.label = label ∧
      Relation.TransGen (r.LeadsTo met) σ τ
  conflict : ∀ label got want, err.innermostCause = .inconsistentSelection label got want →
    got ≠ want ∧ ∃ σ τ, r.IsSelected met σ ∧ r.IsSelected met τ ∧
      σ.label = label ∧ τ.label = label ∧
      σ.package.version.text = got ∧ τ.package.version.text = want

/-- What was being worked on does not count. -/
theorem IsGenuine.during (h : r.IsGenuine met cause) (work : String) :
    r.IsGenuine met (.during work cause) :=
  ⟨h.circle, h.conflict⟩

/-- Failures of other causes say nothing. -/
theorem isGenuine_of_outside (h : err.isOfSearch = false) : r.IsGenuine met err where
  circle _ hcycle := nomatch h.symm.trans (Error.isOfSearch_of_cycle hcycle)
  conflict _ _ _ hconflict :=
    nomatch h.symm.trans (Error.isOfSearch_of_inconsistentSelection hconflict)

/-- Meeting a label again below itself closes a circle. -/
theorem isGenuine_cycle (h : r.NeededBelow met σ.label a) (ha : a ∈ met)
    (hselect : r.select a = .ok σ) : r.IsGenuine met (.cycle σ.label) where
  circle := by
    intro label heq
    cases heq
    obtain ⟨first, last, hfirst, hlabel, hleads, hneed⟩ := h
    exact ⟨first, σ, hfirst, hlabel, rfl, .tail' hleads ⟨a, ha, hneed, hselect⟩⟩
  conflict := nofun

/-! ## States -/

/-- Every finished label was selected with the version of its record. -/
def Founded (r : Resolver) (met : List Atom) (s : SearchState) : Prop :=
  ∀ label record, s.nodes.get? label = some (.finished record) →
    ∃ σ, r.IsSelected met σ ∧ σ.label = label ∧ σ.package.version.text = record.version

/-- Every label that is begun needs the atoms below it. -/
def NeedsAll (r : Resolver) (met : List Atom) (s : SearchState) (atoms : List Atom) : Prop :=
  ∀ label, s.nodes.get? label = some .begun → ∀ a ∈ atoms, r.NeededBelow met label a

/-- How a search should end: in a state that is founded or in a genuine failure. -/
def EndsWell (r : Resolver) (met : List Atom) : Except Error SearchState → Prop
  | .ok t => r.Founded met t
  | .error err => r.IsGenuine met err

/-- The empty state is founded on nothing. -/
theorem founded_empty : r.Founded met .empty :=
  nofun

/-- Beginning a label adds no record, so that the state stays founded. -/
theorem Founded.enter (h : r.Founded met s) (hnode : s.nodes.get? label = none)
    (post : List Atom) : r.Founded met (s.enter label post) :=
  fun other record hother => h other record ((finished_enter_iff hnode).1 hother)

/-- A record that describes a selection of an atom met keeps the state founded. -/
theorem Founded.finish (h : r.Founded met u) (hselected : r.IsSelected met σ)
    (hdescribes : r.Describes σ required record) :
    r.Founded met (u.finish σ.label record) := by
  intro other found hnode
  rw [SearchState.get?_finish] at hnode
  split at hnode
  · next heq =>
    cases hnode
    exact ⟨σ, hselected, heq.symm, hdescribes.version.symm⟩
  · exact h other found hnode

/-- Post dependencies are no part of what a state is founded on. -/
theorem Founded.setPost {labels : List String} (h : r.Founded met s) :
    r.Founded met (s.setPost label labels) := by
  intro other record hnode
  obtain ⟨found, hfound, rfl⟩ := SearchState.finished_of_setPost hnode
  obtain ⟨σ, hselected, hlabel, hversion⟩ := h other found hfound
  refine ⟨σ, hselected, hlabel, hversion.trans ?_⟩
  split <;> rfl

/-- Below a label that is begun the labels that were begun before need what its package
needs, because they need the atom for which it was selected. -/
theorem NeedsAll.enter (h : r.NeedsAll met s (a :: atoms)) (ha : a ∈ met)
    (hselect : r.select a = .ok σ) (hrequires : r.requirements σ.package = .ok required) :
    r.NeedsAll met (s.enter σ.label required.post) (required.runtime ++ required.build) := by
  intro label hbegun b hb
  have hneed : r.IsNeed σ.package b := isNeed_of_requirements hrequires b hb
  rw [SearchState.get?_enter] at hbegun
  split at hbegun
  · next heq => exact ⟨σ, σ, ⟨a, ha, hselect⟩, heq.symm, .refl, hneed⟩
  · exact (h label hbegun a List.mem_cons_self).step ha hselect hneed

/-- Atoms that follow find the same labels begun. -/
theorem NeedsAll.rest (h : r.NeedsAll met s (a :: atoms))
    (hbegun : ∀ label, t.nodes.get? label = some .begun → s.nodes.get? label = some .begun) :
    r.NeedsAll met t atoms :=
  fun label hlabel b hb => h label (hbegun label hlabel) b (List.mem_cons_of_mem a hb)

/-- With nothing in flight there is no package whose needs the atoms would have to be. -/
theorem needsAll_of_idle (h : s.Idle) (atoms : List Atom) : r.NeedsAll met s atoms :=
  fun label hbegun => absurd hbegun (h label)

/-! ## Searches -/

/-- An atom that cannot be met is a genuine failure. -/
theorem isGenuine_of_meet (h : r.meet a s = .error err) (ha : a ∈ met)
    (hneeds : r.NeedsAll met s (a :: atoms)) (hs : r.Founded met s) : r.IsGenuine met err := by
  rcases meet_eq_error h with hselect | ⟨σ, hselect, ⟨hnode, rfl⟩ | ⟨record, hnode, hne, rfl⟩⟩
  · exact isGenuine_of_outside (r.failsOutside_select a err hselect)
  · exact isGenuine_cycle (hneeds σ.label hnode a List.mem_cons_self) ha hselect
  · refine ⟨nofun, fun label got want heq => ?_⟩
    cases heq
    obtain ⟨τ, hselected, hlabel, hversion⟩ := hs σ.label record hnode
    exact ⟨hne.symm, σ, τ, ⟨a, ha, hselect⟩, hselected, rfl, hlabel, rfl, hversion⟩

/-- A search ends well if every label that is begun needs its atoms, whatever else is met. -/
theorem Course.endsWell (h : Course r depth atoms s events outcome)
    (hmet : ∀ a ∈ visited events, a ∈ met) (hneeds : r.NeedsAll met s atoms)
    (hs : r.Founded met s) : r.EndsWell met outcome := by
  -- Labels that are begun stay so below, where they need what is searched there, and in the
  -- atoms that follow; only what is begun in between is finished before those are visited.
  induction h with
  | done => exact hs
  | refused hmeet => exact isGenuine_of_meet hmeet (hmet _ List.mem_cons_self) hneeds hs
  | known _ _ ih =>
    exact ih (List.forall_mem_cons.1 hmet).2 (hneeds.rest fun _ => id) hs
  | unread hmeet hrequires =>
    exact (isGenuine_of_outside (r.failsOutside_requirements _ _ hrequires)).during _
  | failed hmeet hrequires _ hconclude ih =>
    obtain ⟨hselect, hnode⟩ := meet_eq_some_iff.1 hmeet
    rw [visited_cons_visit, visited_append, visited_ofEnter, List.nil_append,
      List.forall_mem_cons] at hmet
    obtain ⟨ha, hbelowMet⟩ := hmet
    obtain ⟨cause, rfl, rfl | hrecord⟩ := conclude_eq_error hconclude
    · have hgenuine : r.IsGenuine met cause :=
        ih hbelowMet (hneeds.enter ha hselect hrequires) (hs.enter hnode _)
      exact hgenuine.during _
    · exact (isGenuine_of_outside (r.failsOutside_recordOf _ _ _ hrecord)).during _
  | @expanded _ a _ _ _ σ _ _ _ _ _ hmeet hrequires hbelow hconclude _ ihBelow ihRest =>
    obtain ⟨hselect, hnode⟩ := meet_eq_some_iff.1 hmeet
    rw [visited_append, visited_cons_visit, visited_append, visited_ofEnter, List.nil_append,
      List.cons_append, List.forall_mem_cons, List.forall_mem_append] at hmet
    obtain ⟨ha, hbelowMet, hrestMet⟩ := hmet
    obtain ⟨u, record, rfl, hrecord, rfl⟩ := conclude_eq_ok hconclude
    obtain ⟨hdescribes, _⟩ := describes_of_recordOf hrequires hrecord
    have hgrows : Grows _ (u.finish σ.label record) := .of_enter hnode (hbelow.search rfl).grows
    have hu : r.Founded met u :=
      ihBelow hbelowMet (hneeds.enter ha hselect hrequires) (hs.enter hnode _)
    exact ihRest hrestMet (hneeds.rest fun other => (hgrows.begun other).1)
      (hu.finish ⟨a, ha, hselect⟩ hdescribes)

/-- Searches for post-dependencies begin with nothing begun, and so they end well. -/
theorem Draining.endsWell (h : Draining r s events outcome)
    (hmet : ∀ a ∈ visited events, a ∈ met) (hidle : s.Idle) (hs : r.Founded met s) :
    r.EndsWell met outcome := by
  induction h with
  | done => exact hs
  | @failed _ _ _ _ _ err _ hcourse =>
    have hgenuine : r.IsGenuine met err := hcourse.endsWell hmet (needsAll_of_idle hidle _) hs
    exact hgenuine.during _
  | @searched _ u _ _ _ _ _ _ hwaiting hcourse _ ih =>
    rw [visited_append, List.forall_mem_append] at hmet
    have hu : r.Founded met u := hcourse.endsWell hmet.1 (needsAll_of_idle hidle _) hs
    have hstep : DrainStep r _ _ := .intro hwaiting (hcourse.search rfl)
    exact ih hmet.2 (hstep.idle hidle) hu.setPost

/-- However a run proceeds, its failures are genuine ones. -/
theorem Proceeds.endsWell (h : Proceeds r roots events outcome) :
    r.EndsWell (visited events) outcome := by
  have hneeds {met : List Atom} : r.NeedsAll met .empty roots :=
    needsAll_of_idle SearchState.idle_empty roots
  cases h with
  | failed hcourse => exact hcourse.endsWell (fun _ => id) hneeds founded_empty
  | @searched s first rest _ hcourse hrest =>
    have hmet : ∀ a ∈ visited first ++ visited rest, a ∈ visited (first ++ rest) := by simp
    rw [List.forall_mem_append] at hmet
    have hs : r.Founded (visited (first ++ rest)) s :=
      hcourse.endsWell hmet.1 hneeds founded_empty
    exact hrest.endsWell hmet.2 ((hcourse.search rfl).grows.idle SearchState.idle_empty) hs

/-- A resolution that fails has taken a course to its failure, which is genuine: a cycle is one
among the packages selected for the atoms visited on the way, each of which needs the next one
to run or to be built, and an inconsistent selection is one of two versions that were selected
for such atoms. -/
theorem isGenuine_of_resolve (h : r.resolve roots = .error err) :
    ∃ events, Proceeds r roots events (.error err) ∧ r.IsGenuine (visited events) err := by
  obtain ⟨events, hproceeds⟩ := exists_proceeds_of_error h
  exact ⟨events, hproceeds, hproceeds.endsWell⟩

/-! ## Two ebuilds that need each other -/

/-- The first ebuild needs the second one to run, which needs the first one to be built. -/
def circularTree : FileTree where
  root := .directory [("overlay", .directory [("dev-libs", .directory [
    ("a", .directory [("a-1.ebuild", .file (.text "SLOT=0\nRDEPEND=dev-libs/b\n"))]),
    ("b", .directory [("b-1.ebuild", .file (.text "SLOT=0\nDEPEND=dev-libs/a\n"))])])])]
  workingDirectory := ⟨"/"⟩

/-- A resolver for the two ebuilds, with nothing configured. -/
def circularResolver : Resolver where
  tree := circularTree
  repositories := ⟨[⟨⟨"/overlay"⟩, "overlay", "7"⟩]⟩
  config := .fixed "" []
  settings := { sourceRoot := ⟨"/"⟩, overrides := {} }

/-- The first of the two ebuilds. -/
def circularAtoms : List Atom := [⟨"dev-libs/a", none, "", []⟩]

/-- The innermost cause of a failure, if it is one. -/
def cause? {α : Type} : Except Error α → Option Error
  | .ok _ => none
  | .error err => some err.innermostCause

/-- The cause of a failed computation is the one below all the labels that it passed. -/
theorem cause?_eq_some_iff {α : Type} {x : Except Error α} :
    cause? x = some cause ↔ ∃ err, x = .error err ∧ err.innermostCause = cause := by
  cases x <;> simp [cause?]

/-- The circle of the two ebuilds is reported, and it is one. -/
theorem isGenuine_circular : ∃ err events,
    circularResolver.resolve circularAtoms = .error err ∧
      err.innermostCause = .cycle "//overlay/dev-libs/a:0" ∧
      Proceeds circularResolver circularAtoms events (.error err) ∧
      circularResolver.IsGenuine (visited events) err := by
  have hcause : cause? (circularResolver.resolve circularAtoms) =
      some (.cycle "//overlay/dev-libs/a:0") := by
    decide +kernel
  obtain ⟨err, herr, hcycle⟩ := cause?_eq_some_iff.1 hcause
  obtain ⟨events, hproceeds, hgenuine⟩ := isGenuine_of_resolve herr
  exact ⟨err, events, herr, hcycle, hproceeds, hgenuine⟩

end Resolver
end EbuildGraph
