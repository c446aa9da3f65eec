import EbuildGraph.Proofs.Resolver.Fuel

/-!
# Resolutions without an order

The records in which a run ends can be told without the run: they hold one record for the
label of every atom that those asked for lead to, and no other, and no label needs itself.
Such records are unique, and whenever there are any a run finds them.  So it does not matter
in which order, or how often, atoms are asked for.

Main definition:

- {lit}`Resolver.Resolves`: the records that a resolution for some atoms has to find.

Main results:

- Theorem {lit}`Resolves.unique`: there are no two such tables of records.
- Theorem {lit}`resolve_eq_ok_iff_resolves`: a resolution succeeds exactly when there are
  such records.
- Theorem {lit}`resolve_congr`: the order of the atoms and their repetitions do not count.
-/

namespace EbuildGraph

/-- The record of the first label names the second one as needed to build or to run. -/
def Records.DependsOn (records : Records) (label next : String) : Prop :=
  ∃ record, records.get? label = some record ∧
    (next ∈ record.buildDependencies ∨ next ∈ record.runtimeDependencies)

/-- A relation that is well-founded the other way round has no cycles. -/
theorem not_transGen_self {α : Type} {rel : α → α → Prop}
    (h : WellFounded fun next start => rel start next) (x : α) : ¬Relation.TransGen rel x x := by
  induction x using h.induction with
  | _ x ih =>
    intro hcycle
    obtain ⟨y, hfirst, hback⟩ := Relation.TransGen.head'_iff.1 hcycle
    exact ih y hfirst (.tail' hback hfirst)

namespace Resolver

variable {r : Resolver} {a : Atom} {σ : Selection} {s t u : SearchState} {label : String}
  {atoms roots : List Atom} {records others : Records}

/-! ## Records of a state -/

/-- The records of a state are those of its finished labels. -/
theorem SearchState.get?_records {record : Record} :
    s.records.get? label = some record ↔ s.nodes.get? label = some (.finished record) := by
  have hdistinct := NameMap.ne_of_pairwise_lt s.nodes.sorted
  rw [records, NameMap.get?_ofList_eq_some_iff, NameMap.get?_eq_some_iff, List.mem_filterMap]
  · constructor
    · rintro ⟨⟨name, progress⟩, hmem, heq⟩
      cases progress with
      | begun => cases heq
      | finished other =>
        cases heq
        exact hmem
    · exact fun hmem => ⟨_, hmem, rfl⟩
  · refine List.Pairwise.filterMap _ ?_ hdistinct
    rintro ⟨name, progress⟩ ⟨name', progress'⟩ hne b hb b' hb'
    cases progress with
    | begun => cases hb
    | finished record =>
      cases progress' with
      | begun => cases hb'
      | finished record' =>
        cases hb
        cases hb'
        exact hne

/-! ## Resolutions -/

/-- The records that a resolution for some atoms has to find. -/
structure Resolves (r : Resolver) (roots : List Atom) (records : Records) : Prop where
  covers : ∀ a, Reached r roots a → ∃ σ required record, r.select a = .ok σ ∧
    records.get? σ.label = some record ∧ r.Describes σ required record ∧
    record.postDependencies = (r.labels required.post).toList
  reached : ∀ label record, records.get? label = some record →
    ∃ a, Reached r roots a ∧ r.labelOf? a = some label
  acyclic : WellFounded fun next label => records.DependsOn label next

/-- What one resolution records at a label, every other resolution of the same roots records there.
-/
theorem Resolves.get?_of_get? (h : r.Resolves roots records) (h' : r.Resolves roots others)
    {record : Record} (hrecord : records.get? label = some record) :
    others.get? label = some record := by
  obtain ⟨a, ha, hlabel⟩ := h.reached label record hrecord
  obtain ⟨σ, required, found, hselect, hfound, hdescribes, hpost⟩ := h.covers a ha
  obtain ⟨σ', required', found', hselect', hfound', hdescribes', hpost'⟩ := h'.covers a ha
  obtain rfl : σ = σ' := Except.ok.inj (hselect.symm.trans hselect')
  obtain rfl : required = required' :=
    Except.ok.inj (hdescribes.requires.symm.trans hdescribes'.requires)
  obtain rfl : σ.label = label := Option.some.inj ((labelOf?_of_select hselect).symm.trans hlabel)
  obtain rfl : found = record := Option.some.inj (hfound.symm.trans hrecord)
  rw [hfound', hdescribes.unique hdescribes' (hpost.trans hpost'.symm)]

/-- There are no two tables of records that resolve the same atoms. -/
theorem Resolves.unique (h : r.Resolves roots records) (h' : r.Resolves roots others) :
    records = others := by
  refine NameMap.ext_get? fun label => Option.ext fun record => ?_
  exact ⟨h.get?_of_get? h', h'.get?_of_get? h⟩

/-- Only which roots there are counts for a resolution. -/
theorem Resolves.congr {xs ys : List Atom} (hmem : ∀ a, a ∈ xs ↔ a ∈ ys)
    (h : r.Resolves xs records) : r.Resolves ys records := by
  have hxs : ∀ a, Reached r ys a → Reached r xs a := fun a => .congr fun b => (hmem b).2
  have hys : ∀ a, Reached r xs a → Reached r ys a := fun a => .congr fun b => (hmem b).1
  refine ⟨fun a ha => h.covers a (hxs a ha), fun label record hrecord => ?_, h.acyclic⟩
  obtain ⟨a, ha, hlabel⟩ := h.reached label record hrecord
  exact ⟨a, hys a ha, hlabel⟩

/-! ## Runs find resolutions -/

/-- Atoms stay settled while the queue is drained. -/
theorem Settled.steps (hsteps : Relation.ReflTransGen (DrainStep r) s t) (h : r.Settled s a) :
    r.Settled t a := by
  induction hsteps with
  | refl => exact h
  | @tail u v _ hstep ih =>
    obtain @⟨label, atoms, rest, _, w, hwaiting, hsearch⟩ := hstep
    have htaken : r.Settled { u with waiting := rest } a := ih
    exact (htaken.grows hsearch.grows).setPost

/-- A run is coherent in the end, and the atoms asked for are settled. -/
theorem Runs.coherent (h : r.Runs roots t) :
    r.Coherent roots [] t ∧ t.waiting = [] ∧ ∀ a ∈ roots, r.Settled t a := by
  obtain ⟨s, hsearch, hsteps, hdone⟩ := h
  have hroots : ∀ a ∈ roots, Reached r roots a := fun _ => .root
  have hcoherent := (coherent_empty r roots).search hsearch hroots
  have hwaits := (waitsReached_empty r roots).search hsearch hroots
  exact ⟨(hcoherent.steps hsteps hwaits).2, hdone,
    fun a ha => (hsearch.settled a ha).steps hsteps⟩

/-- The label of a settled atom stands for the package that is selected for this atom. -/
theorem Coherent.explains_of_settled (h : r.Coherent roots [] t)
    (hroots : ∀ a ∈ roots, a.IsQualified) (ha : Reached r roots a) (hsettled : r.Settled t a) :
    ∃ σ required record, r.select a = .ok σ ∧
      t.nodes.get? σ.label = some (.finished record) ∧
        r.Explains t t.waiting σ required record := by
  obtain ⟨σ, record, hselect, hnode, hversion⟩ := hsettled
  obtain ⟨b, τ, required, hb, hτ, hlabel, hexplains⟩ := h.explained _ _ hnode
  have htext : τ.package.version.text = σ.package.version.text :=
    hexplains.describes.version.symm.trans hversion
  obtain rfl := select_unique (hb.isQualified_of_roots hroots) (ha.isQualified_of_roots hroots)
    hτ hselect hlabel htext
  exact ⟨τ, required, record, hselect, hnode, hexplains⟩

/-- What is reached was settled by a run, under a label that stands for its own package. -/
theorem Runs.explains (h : r.Runs roots t) (hroots : ∀ a ∈ roots, a.IsQualified)
    (ha : Reached r roots a) :
    ∃ σ required record, r.select a = .ok σ ∧
      t.nodes.get? σ.label = some (.finished record) ∧ r.Explains t [] σ required record := by
  obtain ⟨hcoherent, hdone, hsettled⟩ := h.coherent
  rw [← hdone]
  induction ha with
  | root hroot => exact hcoherent.explains_of_settled hroots (.root hroot) (hsettled _ hroot)
  | @required a b σ required hreached hselect hrequires hnames ih =>
    have hb : Reached r roots b := .required hreached hselect hrequires hnames
    refine hcoherent.explains_of_settled hroots hb ?_
    obtain ⟨σ', required', record, hselect', _, hexplains⟩ := ih
    obtain rfl : σ = σ' := Except.ok.inj (hselect.symm.trans hselect')
    obtain rfl : required = required' :=
      Except.ok.inj (hrequires.symm.trans hexplains.describes.requires)
    rcases hnames with hruntime | hbuild | hpost
    · exact hexplains.needs b (List.mem_append_left _ hruntime)
    · exact hexplains.needs b (List.mem_append_right _ hbuild)
    · obtain ⟨_, hentered⟩ := hexplains.owed.resolve_left (hdone ▸ List.not_mem_nil)
      exact hentered b hpost

/-- A run ends in the records of a resolution. -/
theorem Runs.resolves (h : r.Runs roots t) (hroots : ∀ a ∈ roots, a.IsQualified) :
    r.Resolves roots t.records := by
  obtain ⟨hcoherent, _, _⟩ := h.coherent
  refine ⟨fun a ha => ?_, fun label record hrecord => ?_, ?_⟩
  · obtain ⟨σ, required, record, hselect, hnode, hexplains⟩ := h.explains hroots ha
    obtain ⟨hpost, _⟩ := hexplains.owed.resolve_left List.not_mem_nil
    exact ⟨σ, required, record, hselect, SearchState.get?_records.2 hnode, hexplains.describes,
      hpost⟩
  · obtain ⟨a, σ, _, ha, hselect, rfl, _⟩ :=
      hcoherent.explained label record (SearchState.get?_records.1 hrecord)
    exact ⟨a, ha, labelOf?_of_select hselect⟩
  · refine Subrelation.wf ?_ hcoherent.acyclic
    rintro next label ⟨record, hrecord, hnext⟩
    exact ⟨record, SearchState.get?_records.1 hrecord, hnext⟩

/-! ## Resolutions are found -/

/-- Every finished label has a record of the same version. -/
def Follows (s : SearchState) (records : Records) : Prop :=
  ∀ label record, s.nodes.get? label = some (.finished record) →
    ∃ found, records.get? label = some found ∧ record.version = found.version

/-- Beginning a label records nothing, so that the state still follows the records. -/
theorem Follows.enter (h : Follows s records) (hlabel : s.nodes.get? label = none)
    (post : List Atom) : Follows (s.enter label post) records :=
  fun other found hfound => h other found ((finished_enter_iff hlabel).1 hfound)

/-- Recording the version that the records have keeps the state in line with them. -/
theorem Follows.finish {record found : Record} (h : Follows s records)
    (hfound : records.get? label = some found) (hversion : record.version = found.version) :
    Follows (s.finish label record) records := by
  intro other record' hnode
  rw [SearchState.get?_finish] at hnode
  split at hnode
  · next heq =>
    cases hnode
    exact ⟨found, heq ▸ hfound, hversion⟩
  · exact h other record' hnode

/-- Post dependencies make no difference to the versions that are followed. -/
theorem Follows.setPost {labels : List String} (h : Follows s records) :
    Follows (s.setPost label labels) records := by
  intro other record hnode
  obtain ⟨found, hfound, rfl⟩ := SearchState.finished_of_setPost hnode
  obtain ⟨record, hrecord, hversion⟩ := h other found hfound
  refine ⟨record, hrecord, ?_⟩
  split <;> exact hversion

/-- An atom can be searched in every state that follows the records and in which only certain
labels are begun. -/
def Searchable (r : Resolver) (records : Records) (begun : String → Prop) (a : Atom) : Prop :=
  ∀ s, Follows s records → (∀ label, s.nodes.get? label = some .begun → begun label) →
    ∃ t, Search r [a] s t ∧ Follows t records

/-- Atoms can be searched one after the other when each of them can be. -/
theorem exists_search {begun : String → Prop} (hatoms : ∀ a ∈ atoms, r.Searchable records begun a)
    (hs : Follows s records)
    (hbegun : ∀ label, s.nodes.get? label = some .begun → begun label) :
    ∃ t, Search r atoms s t ∧ Follows t records := by
  induction atoms generalizing s with
  | nil => exact ⟨s, .done s, hs⟩
  | cons a rest ih =>
    obtain ⟨hfirst, hrest⟩ := List.forall_mem_cons.1 hatoms
    obtain ⟨u, hsearch, hu⟩ := hfirst s hs hbegun
    have hbegun' : ∀ label, u.nodes.get? label = some .begun → begun label :=
      fun label hlabel => hbegun label ((hsearch.grows.begun label).1 hlabel)
    obtain ⟨t, hsearchRest, ht⟩ := ih hrest hu hbegun'
    exact ⟨t, hsearch.append hsearchRest, ht⟩

/-- What a package needs, the record of its label depends on. -/
theorem Describes.dependsOn {required : Requirements} {record : Record} {b : Atom}
    {next : String} (h : r.Describes σ required record)
    (hrecord : records.get? label = some record) (hb : b ∈ required.runtime ++ required.build)
    (hnext : r.labelOf? b = some next) : records.DependsOn label next := by
  refine ⟨record, hrecord, ?_⟩
  rw [h.build, h.runtime]
  rcases List.mem_append.1 hb with hmem | hmem
  · exact Or.inr (mem_labels_iff.2 ⟨b, hmem, hnext⟩)
  · exact Or.inl (mem_labels_iff.2 ⟨b, hmem, hnext⟩)

/-- Every atom that was reached can be searched while no label is begun that its own label
depends on. -/
theorem Resolves.searchable (h : r.Resolves roots records) :
    ∀ label a, Reached r roots a → r.labelOf? a = some label → ∀ begun : String → Prop,
      (∀ other, begun other → ¬Relation.ReflTransGen records.DependsOn label other) →
        r.Searchable records begun a := by
  intro label
  induction label using h.acyclic.induction with
  | _ label ih =>
    intro a ha hlabel begun hbegun s hs hstack
    obtain ⟨σ, required, record, hselect, hrecord, hdescribes, _⟩ := h.covers a ha
    obtain rfl : σ.label = label := Option.some.inj ((labelOf?_of_select hselect).symm.trans hlabel)
    rcases hnode : s.nodes.get? σ.label with _ | _ | known
    · have hreached := hdescribes.reached ha hselect
      -- Below the label it is begun itself, and nothing that it depends on leads back to it.
      have hbelow : ∀ b ∈ required.runtime ++ required.build,
          r.Searchable records (fun other => begun other ∨ other = σ.label) b := by
        intro b hb
        obtain ⟨τ, _, _, hτ, _⟩ := h.covers b (hreached b hb)
        have hdepends : records.DependsOn σ.label τ.label :=
          hdescribes.dependsOn hrecord hb (labelOf?_of_select hτ)
        refine ih τ.label hdepends b (hreached b hb) (labelOf?_of_select hτ) _ ?_
        rintro other (hother | rfl) hleads
        · exact hbegun other hother (.head hdepends hleads)
        · have hcycle : Relation.TransGen records.DependsOn σ.label σ.label :=
            .head' hdepends hleads
          exact not_transGen_self h.acyclic _ hcycle
      have hstack' : ∀ other, (s.enter σ.label required.post).nodes.get? other = some .begun →
          begun other ∨ other = σ.label := by
        intro other hother
        rw [SearchState.get?_enter] at hother
        split at hother
        · next heq => exact Or.inr heq
        · exact Or.inl (hstack other hother)
      obtain ⟨u, hsearch, hu⟩ := exists_search hbelow (hs.enter hnode _) hstack'
      exact ⟨u.finish σ.label { record with postDependencies := [] },
        .expanded hselect hnode (hdescribes.withPost []) rfl hsearch (.done _),
        hu.finish hrecord rfl⟩
    · exact absurd .refl (hbegun σ.label (hstack σ.label hnode))
    · obtain ⟨found, hfound, hversion⟩ := hs σ.label known hnode
      obtain rfl : found = record := Option.some.inj (hfound.symm.trans hrecord)
      exact ⟨s, .known hselect hnode (hversion.trans hdescribes.version) (.done s), hs⟩

/-- With nothing begun all atoms that were reached can be searched. -/
theorem Resolves.exists_search (h : r.Resolves roots records)
    (hatoms : ∀ a ∈ atoms, Reached r roots a) (hs : Follows s records) (hidle : s.Idle) :
    ∃ t, Search r atoms s t ∧ Follows t records := by
  have hsearchable : ∀ a ∈ atoms, r.Searchable records (fun _ => False) a := by
    intro a ha
    obtain ⟨σ, _, _, hselect, _⟩ := h.covers a (hatoms a ha)
    exact h.searchable σ.label a (hatoms a ha) (labelOf?_of_select hselect) _ fun _ => False.elim
  exact Resolver.exists_search hsearchable hs hidle

/-- With nothing begun the post-dependencies can be searched until none wait. -/
theorem Resolves.exists_steps (h : r.Resolves roots records) (hs : Follows s records)
    (hidle : s.Idle) (hwaits : r.WaitsReached roots s) :
    ∃ t, Relation.ReflTransGen (DrainStep r) s t ∧ t.waiting = [] := by
  induction hwork : r.backlog roots s using Nat.strong_induction_on generalizing s with
  | _ work ih =>
    rcases hwaiting : s.waiting with _ | ⟨⟨label, atoms⟩, rest⟩
    · exact ⟨s, .refl, hwaiting⟩
    have hatoms : ∀ a ∈ atoms, Reached r roots a := hwaits _ (hwaiting ▸ List.mem_cons_self)
    have htaken : Follows { s with waiting := rest } records := hs
    obtain ⟨u, hsearch, hu⟩ := h.exists_search hatoms htaken hidle
    have hstep : DrainStep r s (u.setPost label (r.labels atoms).toList) := .intro hwaiting hsearch
    have hlt := backlog_step_lt hstep hwaits
    obtain ⟨t, hsteps, hdone⟩ :=
      ih _ (hwork ▸ hlt) hu.setPost (hstep.idle hidle) (hwaits.step hstep) rfl
    exact ⟨t, .head hstep hsteps, hdone⟩

/-- There is a run for every resolution. -/
theorem Resolves.exists_runs (h : r.Resolves roots records) : ∃ t, r.Runs roots t := by
  have hroots : ∀ a ∈ roots, Reached r roots a := fun _ => .root
  have hempty : Follows .empty records := nofun
  obtain ⟨s, hsearch, hs⟩ := h.exists_search hroots hempty SearchState.idle_empty
  have hidle : s.Idle := hsearch.grows.idle SearchState.idle_empty
  obtain ⟨t, hsteps, hdone⟩ :=
    h.exists_steps hs hidle ((waitsReached_empty r roots).search hsearch hroots)
  exact ⟨t, s, hsearch, hsteps, hdone⟩

/-! ## Order of the atoms -/

/-- A resolution succeeds exactly when there are records that resolve the atoms. -/
theorem resolve_eq_ok_iff_resolves (hroots : ∀ a ∈ roots, a.IsQualified) {m : Records} :
    r.resolve roots = .ok m ↔ ∃ records, r.Resolves roots records ∧
      m = Records.propagate (Records.addNestedSources records) := by
  rw [resolve_eq_ok_iff_runs]
  constructor
  · rintro ⟨t, hruns, rfl⟩
    exact ⟨t.records, hruns.resolves hroots, rfl⟩
  · rintro ⟨records, hresolves, rfl⟩
    obtain ⟨t, hruns⟩ := hresolves.exists_runs
    exact ⟨t, hruns, by rw [hresolves.unique (hruns.resolves hroots)]⟩

/-- The order in which atoms are asked for does not count, nor how often: atoms that are the
same as a set are resolved alike or not at all.  Their names have to be names of packages, as
those of atoms that were read are; under other names two packages may share a label. -/
theorem resolve_congr (r : Resolver) {xs ys : List Atom} (hmem : ∀ a, a ∈ xs ↔ a ∈ ys)
    (hnames : ∀ a ∈ xs, a.IsQualified) (m : Records) :
    r.resolve xs = .ok m ↔ r.resolve ys = .ok m := by
  have hnames' : ∀ a ∈ ys, a.IsQualified := fun a ha => hnames a ((hmem a).2 ha)
  rw [resolve_eq_ok_iff_resolves hnames, resolve_eq_ok_iff_resolves hnames']
  constructor
  · rintro ⟨records, hresolves, rfl⟩
    exact ⟨records, hresolves.congr hmem, rfl⟩
  · rintro ⟨records, hresolves, rfl⟩
    exact ⟨records, hresolves.congr fun a => (hmem a).symm, rfl⟩

/-! ## A resolver with three ebuilds -/

/-- Three ebuilds: the first needs the second and has the third as a post-dependency, which
in turn needs the first. -/
def linkedTree : FileTree where
  root := .directory [("overlay", .directory [("dev-libs", .directory [
    ("a", .directory [("a-1.ebuild", .file (.text ("EAPI=7\nSLOT=0\nKEYWORDS=*\n" ++
      "DEPEND=dev-libs/b\nRDEPEND=dev-libs/b\nPDEPEND=dev-libs/c\n")))]),
    ("b", .directory [("b-2.ebuild", .file (.text "EAPI=7\nSLOT=0\nKEYWORDS=*\n"))]),
    ("c", .directory [("c-3.ebuild", .file (.text ("EAPI=7\nSLOT=0\nKEYWORDS=*\n" ++
      "RDEPEND=dev-libs/a\n")))])])])]
  workingDirectory := ⟨"/"⟩

/-- A resolver for the three ebuilds, with nothing configured. -/
def linkedResolver : Resolver where
  tree := linkedTree
  repositories := ⟨[⟨⟨"/overlay"⟩, "overlay", "7"⟩]⟩
  config := .fixed "" []
  settings := { sourceRoot := ⟨"/"⟩, overrides := {} }

/-- The ebuilds that depend on each other. -/
def linkedAtoms : List Atom :=
  [⟨"dev-libs/a", none, "", []⟩, ⟨"dev-libs/c", none, "", []⟩]

theorem exists_resolve_linked : ∃ m, linkedResolver.resolve linkedAtoms = .ok m :=
  isOk_iff_exists.1 (by decide +kernel)

/-- The two ebuilds are resolved alike in the other order and with one of them repeated. -/
theorem resolve_linked_reversed : ∃ m, linkedResolver.resolve linkedAtoms = .ok m ∧
    linkedResolver.resolve (linkedAtoms.reverse ++ linkedAtoms) = .ok m := by
  obtain ⟨m, hm⟩ := exists_resolve_linked
  have hmem : ∀ a, a ∈ linkedAtoms ↔ a ∈ linkedAtoms.reverse ++ linkedAtoms := by simp
  have hnames : ∀ a ∈ linkedAtoms, a.IsQualified := by decide
  exact ⟨m, hm, (resolve_congr linkedResolver hmem hnames m).1 hm⟩

/-! ## An ebuild under two names -/

/-- A resolver for two ebuilds, of which the second needs the first. -/
def aliasResolver : Resolver where
  tree := {
    root := .directory [("overlay", .directory [("app", .directory [
      ("a", .directory [("a-1.ebuild", .file (.text "KEYWORDS=*\n"))]),
      ("b", .directory [("b-1.ebuild", .file (.text "KEYWORDS=*\nRDEPEND=app/a\n"))])])])]
    workingDirectory := ⟨"/"⟩ }
  repositories := ⟨[⟨⟨"/overlay"⟩, "overlay", "7"⟩]⟩
  config := .fixed "" []
  settings := { sourceRoot := ⟨"/"⟩, overrides := {} }

/-- An ebuild by its name and by its path, which was not checked to be a name. -/
def aliasAtoms : List Atom :=
  [.ofName "app/a", .ofName "/overlay/app/a"]

/-- The name under which the ebuild is recorded is that of the first atom. -/
theorem names_of_aliases : ∀ sample ∈ [(aliasAtoms, "app/a"),
      (aliasAtoms.reverse, "/overlay/app/a")],
    ((aliasResolver.resolve sample.1).toOption.bind fun m =>
      (m.get? "//overlay/app/a:").map Record.name) = some sample.2 := by
  decide +kernel

/-- Of two names of an ebuild the first one is recorded, so that the order counts when one of
them was not checked. -/
theorem resolve_aliases_reversed : (∀ a, a ∈ aliasAtoms ↔ a ∈ aliasAtoms.reverse) ∧
    ∃ m m', aliasResolver.resolve aliasAtoms = .ok m ∧
      aliasResolver.resolve aliasAtoms.reverse = .ok m' ∧ m ≠ m' := by
  refine ⟨fun a => List.mem_reverse.symm, ?_⟩
  have hfirst := names_of_aliases (aliasAtoms, "app/a") (by simp)
  have hsecond := names_of_aliases (aliasAtoms.reverse, "/overlay/app/a") (by simp)
  obtain ⟨m, hm, hname⟩ := toOption_bind_eq_some_iff.1 hfirst
  obtain ⟨m', hm', hname'⟩ := toOption_bind_eq_some_iff.1 hsecond
  refine ⟨m, m', hm, hm', ?_⟩
  rintro rfl
  exact absurd (hname.symm.trans hname') (by simp)

end Resolver
end EbuildGraph
