import EbuildGraph.Proofs.Record.NestedSources
import EbuildGraph.Proofs.Resolver.Resolution

/-!
# The resolved graph

Completing the records of a run with nested sources and with post-dependencies leaves
everything else in them as it was, so what holds at the end of a run holds of the records
that a resolution gives: each tells of a selected package, every label in it has a record of
the version that is selected, and no label leads back to itself.  The names of the atoms that are
asked for count here.  A name that was not checked may be a path, under which an ebuild is recorded
although other atoms know it by its name.

Main definitions:

- {lit}`Resolver.IsFaithful`: what resolved records say of the selected packages.
- {lit}`Resolver.HasOwnRecord`: whether the package that is recorded for an atom is the one that
  is selected for it.

Main results:

- Theorem {lit}`isFaithful_of_resolve`: resolved records are faithful, and under checked names
  every atom has a record of its own.
- Theorem {lit}`acyclic_of_resolve`: no label needs itself, directly or through others.
-/

namespace EbuildGraph
namespace Resolver

variable {r : Resolver} {a : Atom} {σ : Selection} {t : SearchState} {label : String}
  {record : Record} {roots : List Atom} {m : Records}

/-! ## Completed records -/

/-- Completing records changes local sources and post-dependencies only. -/
theorem exists_get?_complete (records : Records) (label : String) :
    ∃ sources posts : Record → List String,
      (Records.propagate (Records.addNestedSources records)).get? label =
        (records.get? label).map fun record =>
          { record with localSources := sources record, postDependencies := posts record } := by
  simp only [Records.propagate, NameMap.get?_mapEntries, Records.get?_addNestedSources,
    Option.map_map]
  exact ⟨_, _, rfl⟩

/-- Two records say the same of a package and of what it needs. -/
structure Agree (record found : Record) : Prop where
  name : record.name = found.name
  mainSlot : record.mainSlot = found.mainSlot
  version : record.version = found.version
  build : record.buildDependencies = found.buildDependencies
  runtime : record.runtimeDependencies = found.runtimeDependencies

/-- A completed record comes from one that agrees with it. -/
theorem get?_of_complete {records : Records}
    (h : (Records.propagate (Records.addNestedSources records)).get? label = some record) :
    ∃ found, records.get? label = some found ∧ Agree record found := by
  obtain ⟨sources, posts, hcomplete⟩ := exists_get?_complete records label
  obtain ⟨found, hfound, rfl⟩ := Option.map_eq_some_iff.1 (hcomplete.symm.trans h)
  exact ⟨found, hfound, rfl, rfl, rfl, rfl, rfl⟩

/-! ## Faithful records -/

/-- The package selected for an atom satisfies it and is recorded under its label with its
version. -/
def IsRecorded (r : Resolver) (m : Records) (a : Atom) : Prop :=
  ∃ σ record, r.select a = .ok σ ∧ a.admits σ.package.target = true ∧
    m.get? σ.label = some record ∧ record.version = σ.package.version.text

/-- A list has the labels of the packages that are selected for certain atoms, each one once and
in order. -/
structure AreLabelsOf (r : Resolver) (labels : List String) (needed : Atom → Prop) : Prop where
  sorted : labels.Pairwise (· < ·)
  mem_iff : ∀ label, label ∈ labels ↔ ∃ a σ, needed a ∧ r.select a = .ok σ ∧ σ.label = label

/-- A record tells of a package: what it is, and the labels of all that it is built with and
that it needs at run time.  What the package is built with it also needs at run time if it
only carries Rust sources. -/
structure TellsOf (r : Resolver) (m : Records) (p : Package) (record : Record) : Prop where
  name : record.name = p.name
  mainSlot : record.mainSlot = p.mainSlot
  version : record.version = p.version.text
  declares : ∃ eapi, p.eapi = .ok eapi ∧ ∀ var, var = "RDEPEND" ∨ eapi.BuildsWith var →
    ∃ atoms, r.dependencies p var = .ok atoms
  build : r.AreLabelsOf record.buildDependencies (r.IsBuiltWith p)
  runtime : r.AreLabelsOf record.runtimeDependencies fun a =>
    r.IsRunWith p a ∨ IsSourceCrate p ∧ r.IsBuiltWith p a
  recorded : ∀ a, r.IsRunWith p a ∨ r.IsBuiltWith p a → r.IsRecorded m a

/-- What resolved records say of the selected packages.  Every record tells of a package
selected for an atom that was reached, and the atoms asked for are recorded. -/
structure IsFaithful (r : Resolver) (roots : List Atom) (m : Records) : Prop where
  tells : ∀ label record, m.get? label = some record →
    ∃ a σ, Reached r roots a ∧ r.select a = .ok σ ∧ σ.label = label ∧ r.TellsOf m σ.package record
  recorded : ∀ a ∈ roots, r.IsRecorded m a

/-- The package that is recorded for an atom is the one that is selected for it, and no other
package that was reached has its label. -/
def HasOwnRecord (r : Resolver) (roots : List Atom) (m : Records) (a : Atom) : Prop :=
  ∃ σ record, r.select a = .ok σ ∧ a.admits σ.package.target = true ∧
    m.get? σ.label = some record ∧ r.TellsOf m σ.package record ∧
    ∀ b τ, Reached r roots b → r.select b = .ok τ → τ.label = σ.label → τ = σ

/-- Sorted and without repetition, the labels of the atoms in question are what a record lists. -/
theorem areLabelsOf_labels {atoms : List Atom} {needed : Atom → Prop}
    (h : ∀ a, a ∈ atoms ↔ needed a) : r.AreLabelsOf (r.labels atoms).toList needed where
  sorted := (r.labels atoms).sorted
  mem_iff := by
    intro label
    rw [← NameSet.mem_iff_mem_toList, mem_labels_iff]
    simp only [h, labelOf?_eq_some_iff, exists_and_left]

/-- What is settled in a state is recorded in its completed records. -/
theorem isRecorded_of_settled (h : r.Settled t a) :
    r.IsRecorded (Records.propagate (Records.addNestedSources t.records)) a := by
  obtain ⟨σ, record, hselect, hnode, hversion⟩ := h
  obtain ⟨sources, posts, hcomplete⟩ := exists_get?_complete t.records σ.label
  rw [SearchState.get?_records.2 hnode] at hcomplete
  exact ⟨σ, _, hselect, (admits_of_select hselect).2, hcomplete, hversion⟩

/-- A record that agrees with the one of an explained label tells of the package. -/
theorem Explains.tellsOf {required : Requirements} {found : Record}
    {pending : List (String × List Atom)} (h : r.Explains t pending σ required found)
    (hagree : Agree record found) :
    r.TellsOf (Records.propagate (Records.addNestedSources t.records)) σ.package record where
  name := hagree.name.trans h.describes.name
  mainSlot := hagree.mainSlot.trans h.describes.mainSlot
  version := hagree.version.trans h.describes.version
  declares := by
    obtain ⟨runtime, eapi, build, hrun, heapi, hbuilds, _⟩ :=
      requirements_eq_ok h.describes.requires
    refine ⟨eapi, heapi, ?_⟩
    rintro var (rfl | hvar)
    · exact ⟨runtime, hrun⟩
    · obtain ⟨atoms, _, hatoms⟩ :=
        exists_mem_of_mapM hbuilds (Eapi.mem_buildVariables_iff.2 hvar)
      exact ⟨atoms, hatoms⟩
  build := by
    rw [hagree.build, h.describes.build]
    exact areLabelsOf_labels fun a => mem_build_iff h.describes.requires
  runtime := by
    rw [hagree.runtime, h.describes.runtime]
    exact areLabelsOf_labels fun a => mem_runtime_iff h.describes.requires
  recorded := by
    rintro a (hrun | hbuild)
    · have hmem := (mem_runtime_iff h.describes.requires).2 (Or.inl hrun)
      exact isRecorded_of_settled (h.needs a (List.mem_append_left _ hmem))
    · have hmem := (mem_build_iff h.describes.requires).2 hbuild
      exact isRecorded_of_settled (h.needs a (List.mem_append_right _ hmem))

/-- The records of a run are faithful to the packages that were selected. -/
theorem Runs.isFaithful (h : r.Runs roots t) :
    r.IsFaithful roots (Records.propagate (Records.addNestedSources t.records)) := by
  obtain ⟨hcoherent, _, hsettled⟩ := h.coherent
  refine ⟨fun label record hrecord => ?_, fun a ha => isRecorded_of_settled (hsettled a ha)⟩
  obtain ⟨found, hfound, hagree⟩ := get?_of_complete hrecord
  obtain ⟨a, σ, required, ha, hselect, hlabel, hexplains⟩ :=
    hcoherent.explained label found (SearchState.get?_records.1 hfound)
  exact ⟨a, σ, ha, hselect, hlabel, hexplains.tellsOf hagree⟩

/-- Packages that were reached under checked names and that share a label are one. -/
theorem Runs.select_eq_of_label (h : r.Runs roots t) (hnames : ∀ a ∈ roots, a.IsQualified)
    {b : Atom} {τ : Selection} (ha : Reached r roots a) (hb : Reached r roots b)
    (hσ : r.select a = .ok σ) (hτ : r.select b = .ok τ) (hlabel : τ.label = σ.label) : τ = σ := by
  obtain ⟨σ', _, record, hσ', hnode, hexplains⟩ := h.explains hnames ha
  obtain ⟨τ', _, record', hτ', hnode', hexplains'⟩ := h.explains hnames hb
  obtain rfl : σ = σ' := Except.ok.inj (hσ.symm.trans hσ')
  obtain rfl : τ = τ' := Except.ok.inj (hτ.symm.trans hτ')
  obtain rfl : record = record' := by
    rw [← hlabel, hnode'] at hnode
    cases hnode
    rfl
  have htext := hexplains'.describes.version.symm.trans hexplains.describes.version
  exact select_unique (hb.isQualified_of_roots hnames) (ha.isQualified_of_roots hnames) hτ hσ
    hlabel htext

/-- An atom that the run reached from qualified names has a record of its own. -/
theorem Runs.hasOwnRecord (h : r.Runs roots t) (hnames : ∀ a ∈ roots, a.IsQualified)
    (ha : Reached r roots a) :
    r.HasOwnRecord roots (Records.propagate (Records.addNestedSources t.records)) a := by
  obtain ⟨σ, required, found, hselect, hnode, hexplains⟩ := h.explains hnames ha
  obtain ⟨sources, posts, hcomplete⟩ := exists_get?_complete t.records σ.label
  rw [SearchState.get?_records.2 hnode] at hcomplete
  exact ⟨σ, _, hselect, (admits_of_select hselect).2, hcomplete,
    hexplains.tellsOf ⟨rfl, rfl, rfl, rfl, rfl⟩,
    fun b τ hb hτ hlabel => h.select_eq_of_label hnames ha hb hselect hτ hlabel⟩

/-- The graph of resolved records is that of the selected packages and their dependencies.  Where
the atoms asked for name packages as atoms that were read do, a label stands for one package only,
so that the package recorded for an atom is the one selected for it. -/
theorem isFaithful_of_resolve (h : r.resolve roots = .ok m) :
    r.IsFaithful roots m ∧
      ((∀ a ∈ roots, a.IsQualified) → ∀ a, Reached r roots a → r.HasOwnRecord roots m a) := by
  obtain ⟨t, hruns, rfl⟩ := resolve_eq_ok_iff_runs.1 h
  exact ⟨hruns.isFaithful, fun hnames _ ha => hruns.hasOwnRecord hnames ha⟩

/-- A crate that only carries sources, with the library and the tool that it is built with. -/
def crateResolver : Resolver where
  tree := {
    root := .directory [("overlay", .directory [
      ("dev-rust", .directory [
        ("a", .directory [("a-1.ebuild", .file (.text ("EAPI=7\nSLOT=0\nKEYWORDS=*\n" ++
          "inherit cros-rust\nHAS_SRC_COMPILE=0\nDEPEND=dev-rust/b\nBDEPEND=dev-rust/c\n")))]),
        ("b", .directory [("b-2.ebuild", .file (.text "SLOT=0\nKEYWORDS=*\n"))]),
        ("c", .directory [("c-3.ebuild", .file (.text "SLOT=0\nKEYWORDS=*\n"))])]),
      ("eclass", .directory [("cros-rust.eclass", .file (.text ""))])])]
    workingDirectory := ⟨"/"⟩ }
  repositories := ⟨[⟨⟨"/overlay"⟩, "overlay", "7"⟩]⟩
  config := .fixed "" []
  settings := { sourceRoot := ⟨"/"⟩, overrides := {} }

/-- The atom that asks for the crate. -/
def crateAtom : Atom :=
  .ofName "dev-rust/a"

/-- The record of the crate, with the library and the tool in both lists. -/
theorem record_of_crate : ((crateResolver.resolve [crateAtom]).toOption.bind fun m =>
      (m.get? "//overlay/dev-rust/a:0").map fun record =>
        (record.name, record.version, record.buildDependencies, record.runtimeDependencies)) =
    some ("dev-rust/a", "1", ["//overlay/dev-rust/b:0", "//overlay/dev-rust/c:0"],
      ["//overlay/dev-rust/b:0", "//overlay/dev-rust/c:0"]) := by
  decide +kernel

/-- What the crate is built with its record also lists for run time, and all atoms that the
crate leads to have records of their own. -/
theorem isFaithful_crate : ∃ m record, crateResolver.resolve [crateAtom] = .ok m ∧
    m.get? "//overlay/dev-rust/a:0" = some record ∧
    record.name = "dev-rust/a" ∧ record.version = "1" ∧
    record.buildDependencies = ["//overlay/dev-rust/b:0", "//overlay/dev-rust/c:0"] ∧
    record.runtimeDependencies = ["//overlay/dev-rust/b:0", "//overlay/dev-rust/c:0"] ∧
    crateResolver.IsFaithful [crateAtom] m ∧
    ∀ a, Reached crateResolver [crateAtom] a → crateResolver.HasOwnRecord [crateAtom] m a := by
  obtain ⟨m, hm, hfound⟩ := toOption_bind_eq_some_iff.1 record_of_crate
  obtain ⟨record, hrecord, hseen⟩ := Option.map_eq_some_iff.1 hfound
  obtain ⟨hname, hversion, hbuild, hruntime⟩ := by simpa only [Prod.mk.injEq] using hseen
  obtain ⟨hfaithful, hown⟩ := isFaithful_of_resolve hm
  exact ⟨m, record, hm, hrecord, hname, hversion, hbuild, hruntime, hfaithful, hown (by decide)⟩

/-- An atom with a path for a name, and one whose package needs the ebuild at that path. -/
def pathAtoms : List Atom :=
  [.ofName "/overlay/app/a", .ofName "app/b"]

/-- The ebuild at the path is recorded under the path, although another package needs it under
its name. -/
theorem resolve_pathAtoms : ((aliasResolver.resolve pathAtoms).toOption.bind fun m =>
      (m.get? "//overlay/app/a:").map Record.name) = some "/overlay/app/a" ∧
    (aliasResolver.best (.ofName "app/b")).toOption.bind (fun p =>
      (aliasResolver.dependencies p "RDEPEND").toOption) = some [.ofName "app/a"] ∧
    aliasResolver.labelOf? (.ofName "app/a") = some "//overlay/app/a:" := by
  decide +kernel

/-- Under a name that was not checked an ebuild is recorded with this name, so that what is
recorded at the label of an atom that needs it does not satisfy that atom. -/
theorem not_admits_of_pathAtoms :
    ∃ m record p σ, aliasResolver.resolve pathAtoms = .ok m ∧
      aliasResolver.best (.ofName "app/b") = .ok p ∧
      aliasResolver.dependencies p "RDEPEND" = .ok [.ofName "app/a"] ∧
      aliasResolver.select (.ofName "app/a") = .ok σ ∧ m.get? σ.label = some record ∧
      ∀ version slot flags,
        (Atom.ofName "app/a").admits ⟨record.name, version, slot, flags⟩ = false := by
  obtain ⟨hrecord, hneeds, hlabel⟩ := resolve_pathAtoms
  obtain ⟨m, hm, hfound⟩ := toOption_bind_eq_some_iff.1 hrecord
  obtain ⟨record, hget, hname⟩ := Option.map_eq_some_iff.1 hfound
  obtain ⟨p, hp, hatoms⟩ := toOption_bind_eq_some_iff.1 hneeds
  obtain ⟨σ, hσ, hlabel⟩ := labelOf?_eq_some_iff.1 hlabel
  refine ⟨m, record, p, σ, hm, hp, toOption_eq_some_iff.1 hatoms, hσ, hlabel ▸ hget,
    fun version slot flags => ?_⟩
  rw [hname]
  rfl

/-! ## Cycles -/

/-- In resolved records no label needs itself to build or to run, directly or through others,
whatever post-dependencies lead back to it. -/
theorem acyclic_of_resolve (h : r.resolve roots = .ok m) (label : String) :
    ¬Relation.TransGen m.DependsOn label label := by
  obtain ⟨t, hruns, rfl⟩ := resolve_eq_ok_iff_runs.1 h
  obtain ⟨hcoherent, _, _⟩ := hruns.coherent
  refine not_transGen_self (Subrelation.wf ?_ hcoherent.acyclic) label
  rintro next start ⟨record, hrecord, hnext⟩
  obtain ⟨found, hfound, hagree⟩ := get?_of_complete hrecord
  rw [hagree.build, hagree.runtime] at hnext
  exact ⟨found, SearchState.get?_records.1 hfound, hnext⟩

/-- The first linked ebuild does not need itself, although its post-dependency needs it. -/
theorem acyclic_linked : ∃ m, linkedResolver.resolve linkedAtoms = .ok m ∧
    ¬Relation.TransGen m.DependsOn "//overlay/dev-libs/a:0" "//overlay/dev-libs/a:0" := by
  obtain ⟨m, hm⟩ := exists_resolve_linked
  exact ⟨m, hm, acyclic_of_resolve hm _⟩

end Resolver
end EbuildGraph
