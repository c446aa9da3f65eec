import EbuildGraph.Proofs.Resolver.Course
import Mathlib.Data.List.Perm.Subperm

/-!
# Every label once

Every resolution ends, with records or with a failure, however its packages depend on each
other.  On the way a label is begun only if it was not met before, and it stays met from then
on.  So each label is begun once, it starts to wait at most then, and visits nest only below
labels of which each was begun for itself.

Main definition:

- {lit}`Resolver.Accounts`: what the events of a search say of the labels that it begins.

Main results:

- Theorem {lit}`Course.accounts`: the course of every search accounts for its labels.
- Theorem {lit}`resolve_terminates`: every resolution ends and begins each label once.
-/

namespace EbuildGraph
namespace Resolver

open Event (begun awaited ofEnter begun_append awaited_append begun_ofEnter awaited_ofEnter
  visit_not_mem_ofEnter)

variable {r : Resolver} {a : Atom} {s t u : SearchState} {label : String} {record : Record}
  {post atoms roots : List Atom} {depth : Nat} {err : Error} {events events' : List Event}
  {outcome below : Except Error SearchState}

/-! ## Labels of a search -/

/-- Entering post-dependencies meets no label. -/
theorem SearchState.get?_setPost_eq_none_iff {labels : List String} {other : String} :
    (s.setPost label labels).nodes.get? other = none ↔ s.nodes.get? other = none := by
  rw [SearchState.get?_setPost]
  rcases s.nodes.get? other with _ | _ | record <;> simp

/-- What the events of a search say, whether or not it succeeds: the labels that it begins
were not met before and are begun once, nesting is bounded by their number, only they start
to wait, and after a success no others have been met. -/
structure Accounts (depth : Nat) (s : SearchState) (events : List Event)
    (outcome : Except Error SearchState) : Prop where
  fresh : ∀ label ∈ begun events, s.nodes.get? label = none
  once : (begun events).Nodup
  queued : (awaited events).Sublist (begun events)
  nested : ∀ inner a, Event.visit inner a ∈ events → inner ≤ depth + (begun events).length
  met : ∀ t, outcome = .ok t → ∀ label,
    t.nodes.get? label = none ↔ s.nodes.get? label = none ∧ label ∉ begun events

theorem accounts_done (depth : Nat) (s : SearchState) : Accounts depth s [] (.ok s) where
  fresh := nofun
  once := .nil
  queued := .slnil
  nested := nofun
  met t hok label := by
    cases hok
    simp

theorem accounts_stop (depth : Nat) (s : SearchState) (err : Error) :
    Accounts depth s [] (.error err) where
  fresh := nofun
  once := .nil
  queued := .slnil
  nested := nofun
  met := nofun

/-- A visit begins no label by itself. -/
theorem Accounts.visit (h : Accounts depth s events outcome) (a : Atom) :
    Accounts depth s (.visit depth a :: events) outcome where
  fresh := h.fresh
  once := h.once
  queued := h.queued
  nested := by
    intro inner b hmem
    rcases List.mem_cons.1 hmem with heq | hrest
    · cases heq
      exact Nat.le_add_right depth _
    · exact h.nested inner b hrest
  met := h.met

/-- What is below a label that was not met nests one deeper, and the label is one more. -/
theorem Accounts.enter (hlabel : s.nodes.get? label = none)
    (h : Accounts (depth + 1) (s.enter label post) events below)
    (houtcome : ∀ t, outcome = .ok t → ∃ u record, below = .ok u ∧ t = u.finish label record) :
    Accounts depth s (ofEnter label post ++ events) outcome where
  fresh := by
    intro other hother
    rw [begun_append, begun_ofEnter] at hother
    rcases List.mem_append.1 hother with hfirst | hrest
    · rw [List.mem_singleton.1 hfirst]
      exact hlabel
    · have hnode := h.fresh other hrest
      rw [SearchState.get?_enter] at hnode
      split at hnode
      · cases hnode
      · exact hnode
  once := by
    rw [begun_append, begun_ofEnter]
    refine List.nodup_cons.2 ⟨fun hmem => ?_, h.once⟩
    have hnode := h.fresh label hmem
    rw [SearchState.get?_enter, if_pos rfl] at hnode
    cases hnode
  queued := by
    rw [awaited_append, begun_append, begun_ofEnter, awaited_ofEnter]
    refine List.Sublist.append ?_ h.queued
    split
    · exact List.nil_sublist _
    · exact List.Sublist.refl _
  nested := by
    intro inner b hmem
    have hbelow : Event.visit inner b ∈ events :=
      (List.mem_append.1 hmem).resolve_left visit_not_mem_ofEnter
    have hle := h.nested inner b hbelow
    rw [begun_append, begun_ofEnter, List.length_append, List.length_singleton]
    omega
  met := by
    intro t hok other
    obtain ⟨u, record, hbelow, rfl⟩ := houtcome t hok
    have hmet := h.met u hbelow other
    rw [SearchState.get?_enter] at hmet
    rw [SearchState.get?_finish, begun_append, begun_ofEnter]
    by_cases hother : other = label
    · simp [hother]
    · rw [if_neg hother, hmet, if_neg hother]
      simp [hother]

/-- What comes after a search begins only labels that the search has not met. -/
theorem Accounts.append (h : Accounts depth s events (.ok u))
    (h' : Accounts depth u events' outcome) : Accounts depth s (events ++ events') outcome where
  fresh := by
    intro label hlabel
    rw [begun_append] at hlabel
    rcases List.mem_append.1 hlabel with hfirst | hrest
    · exact h.fresh label hfirst
    · exact ((h.met u rfl label).1 (h'.fresh label hrest)).1
  once := by
    rw [begun_append]
    refine List.nodup_append.2 ⟨h.once, h'.once, fun label hfirst other hrest heq => ?_⟩
    have hunmet := ((h.met u rfl other).1 (h'.fresh other hrest)).2
    exact hunmet (heq ▸ hfirst)
  queued := by
    rw [awaited_append, begun_append]
    exact h.queued.append h'.queued
  nested := by
    intro inner a hmem
    rw [begun_append, List.length_append]
    rcases List.mem_append.1 hmem with hfirst | hrest
    · have hle := h.nested inner a hfirst
      omega
    · have hle := h'.nested inner a hrest
      omega
  met := by
    intro t hok label
    rw [h'.met t hok label, h.met u rfl label, begun_append, List.mem_append, not_or, and_assoc]

/-- Neither taking what waits nor entering post-dependencies meets a label. -/
theorem Accounts.setPost {rest : List (String × List Atom)} {labels : List String}
    (h : Accounts depth { s with waiting := rest } events (.ok u)) :
    Accounts depth s events (.ok (u.setPost label labels)) where
  fresh := h.fresh
  once := h.once
  queued := h.queued
  nested := h.nested
  met := by
    intro t hok other
    cases hok
    rw [SearchState.get?_setPost_eq_none_iff]
    exact h.met u rfl other

/-- The course of every search accounts for the labels that it begins. -/
theorem Course.accounts (h : Course r depth atoms s events outcome) :
    Accounts depth s events outcome := by
  induction h with
  | done => exact accounts_done _ _
  | refused => exact (accounts_stop _ _ _).visit _
  | known _ _ ih => exact ih.visit _
  | @unread depth _ _ s σ err hmeet =>
    obtain ⟨_, hnode⟩ := meet_eq_some_iff.1 hmeet
    have hstop : Accounts (depth + 1) (s.enter σ.label []) [] (.error err) := accounts_stop _ _ _
    refine (hstop.enter hnode fun t hok => ?_).visit _
    cases hok
  | failed hmeet _ _ _ ih =>
    obtain ⟨_, hnode⟩ := meet_eq_some_iff.1 hmeet
    refine (ih.enter hnode fun t hok => ?_).visit _
    cases hok
  | expanded hmeet _ _ hconclude _ ihBelow ihRest =>
    obtain ⟨_, hnode⟩ := meet_eq_some_iff.1 hmeet
    refine ((ihBelow.enter hnode fun t hok => ?_).visit _).append ihRest
    obtain ⟨u, record, hbelow, _, rfl⟩ := conclude_eq_ok hconclude
    cases hok
    exact ⟨u, record, hbelow, rfl⟩

/-- So does the course of the searches for post-dependencies, which begin anew one by one. -/
theorem Draining.accounts (h : Draining r s events outcome) : Accounts 1 s events outcome := by
  induction h with
  | done => exact accounts_done _ _
  | failed _ hcourse =>
    have hsearch := hcourse.accounts
    exact ⟨hsearch.fresh, hsearch.once, hsearch.queued, hsearch.nested, nofun⟩
  | searched _ hcourse _ ih => exact hcourse.accounts.setPost.append ih

theorem Proceeds.accounts (h : Proceeds r roots events outcome) :
    Accounts 1 .empty events outcome := by
  cases h with
  | failed hcourse => exact hcourse.accounts
  | searched hcourse hrest => exact hcourse.accounts.append hrest.accounts

/-! ## How many labels there are -/

/-- A search for atoms that were reached begins labels of ebuilds only. -/
theorem Course.begun_subset (h : Course r depth atoms s events outcome)
    (hatoms : ∀ a ∈ atoms, Reached r roots a) : begun events ⊆ r.possibleLabels roots := by
  induction h with
  | done => exact List.nil_subset _
  | refused => exact List.nil_subset _
  | known _ _ ih => exact ih (List.forall_mem_cons.1 hatoms).2
  | unread hmeet =>
    obtain ⟨hselect, _⟩ := meet_eq_some_iff.1 hmeet
    have hreached := (List.forall_mem_cons.1 hatoms).1
    exact List.cons_subset.2 ⟨label_mem_possibleLabels hreached.isQualified hselect,
      List.nil_subset _⟩
  | failed hmeet hrequires _ _ ih =>
    obtain ⟨hselect, _⟩ := meet_eq_some_iff.1 hmeet
    have hreached := (List.forall_mem_cons.1 hatoms).1
    rw [Event.begun_cons_visit, begun_append, begun_ofEnter]
    exact List.cons_subset.2 ⟨label_mem_possibleLabels hreached.isQualified hselect,
      ih (hreached.needs hselect hrequires)⟩
  | expanded hmeet hrequires _ _ _ ihBelow ihRest =>
    obtain ⟨hselect, _⟩ := meet_eq_some_iff.1 hmeet
    obtain ⟨hreached, hrest⟩ := List.forall_mem_cons.1 hatoms
    rw [begun_append, Event.begun_cons_visit, begun_append, begun_ofEnter]
    refine List.append_subset.2 ⟨?_, ihRest hrest⟩
    exact List.cons_subset.2 ⟨label_mem_possibleLabels hreached.isQualified hselect,
      ihBelow (hreached.needs hselect hrequires)⟩

theorem Draining.begun_subset (h : Draining r s events outcome)
    (hwaits : r.WaitsReached roots s) : begun events ⊆ r.possibleLabels roots := by
  induction h with
  | done => exact List.nil_subset _
  | failed hwaiting hcourse =>
    exact hcourse.begun_subset (hwaits _ (hwaiting ▸ List.mem_cons_self))
  | searched hwaiting hcourse _ ih =>
    rw [begun_append]
    refine List.append_subset.2 ⟨?_, ih (hwaits.step (.intro hwaiting (hcourse.search rfl)))⟩
    exact hcourse.begun_subset (hwaits _ (hwaiting ▸ List.mem_cons_self))

theorem Proceeds.begun_subset (h : Proceeds r roots events outcome) :
    begun events ⊆ r.possibleLabels roots := by
  have hroots : ∀ a ∈ roots, Reached r roots a := fun _ => .root
  cases h with
  | failed hcourse => exact hcourse.begun_subset hroots
  | searched hcourse hrest =>
    have hwaits := (waitsReached_empty r roots).search (hcourse.search rfl) hroots
    rw [begun_append]
    exact List.append_subset.2 ⟨hcourse.begun_subset hroots, hrest.begun_subset hwaits⟩

/-! ## Termination -/

/-- What holds of the events of a whole resolution: each label is begun once and starts to wait
at most once, visits nest no deeper than one more than there are labels, and there are no more
labels than ebuilds. -/
structure IsBounded (r : Resolver) (roots : List Atom) (events : List Event) : Prop where
  once : (begun events).Nodup
  queued : (awaited events).Nodup
  nested : ∀ depth a, Event.visit depth a ∈ events → depth ≤ (begun events).length + 1
  few : (begun events).length ≤ r.labelBound roots

theorem Proceeds.isBounded (h : Proceeds r roots events outcome) : r.IsBounded roots events where
  once := h.accounts.once
  queued := h.accounts.queued.nodup h.accounts.once
  nested := by
    intro depth a hmem
    have hle := h.accounts.nested depth a hmem
    omega
  few := by
    have hsub := List.subperm_of_subset h.accounts.once h.begun_subset
    exact hsub.length_le.trans (r.length_possibleLabels_le roots)

/-- Every resolution ends, whatever its packages need of each other: there is exactly one
course that it takes, without any fuel, and its result is the end of that course.  On the way
each label is begun once and starts to wait at most once, and visits nest no deeper than one
more than there are labels. -/
theorem resolve_terminates (r : Resolver) (roots : List Atom) : ∃ events outcome,
    Proceeds r roots events outcome ∧
      (∀ events' outcome', Proceeds r roots events' outcome' →
        events' = events ∧ outcome' = outcome) ∧
      r.resolve roots = outcome.map SearchState.completed ∧ r.IsBounded roots events := by
  obtain ⟨events, outcome, hproceeds, hresult⟩ := exists_proceeds r roots
  exact ⟨events, outcome, hproceeds, fun _ _ h => h.unique hproceeds, hresult,
    hproceeds.isBounded⟩

end Resolver
end EbuildGraph
