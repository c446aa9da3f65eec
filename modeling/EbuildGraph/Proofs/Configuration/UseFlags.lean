import EbuildGraph.Configuration.UseFlags
import EbuildGraph.Proofs.Success
import EbuildGraph.Proofs.Variables

/-!
# What decides a USE flag

Each of the lists that sources of configuration give for a flag has a last word: the masking
and the forcing lists of all layers in stacking order, and the words of all tables of
variables behind the defaults of the ebuild.

Main definitions:

- {lit}`Layer.entriesFor`: what a layer says of a package in two of its lists.
- {lit}`Source.layers`: the layers that a source applies, bundled ones in order.
- {lit}`Source.maskEntries`, {lit}`Source.forceEntries`: the entries of these layers about a
  package, for each layer those for all packages first.
- {lit}`LastEntryIs`: whether the last entry that names a flag is the flag.

Main results:

- Theorem {lit}`Source.applyUse_eq_foldl`: a source applies its layers one after another.
- Theorem {lit}`mem_useFlags_iff`: when a flag is on for a package.
-/

namespace EbuildGraph
namespace Configuration

/-! ## Masking and forcing entries -/

/-- Whether the last entry that names a flag, alone or behind a hyphen, is the flag. -/
def LastEntryIs (flag : String) (entries : List String) : Prop :=
  EndsOn flag [flag, "-" ++ flag] entries

/-- An entry says yes to the flag that it is, and no to the one behind its hyphen. -/
theorem isSet_enterFlag_iff {flag : String} (hflag : IsFlag flag) {states : FlagSwitches}
    {entry : String} : isSet (Layer.enterFlag states entry) flag = true ↔
      entry = flag ∨ entry ∉ [flag, "-" ++ flag] ∧ isSet states flag = true := by
  unfold Layer.enterFlag
  split
  · next name hname =>
    obtain rfl := eq_hyphen_append hname
    have hne := (hflag.ne_hyphen_append (String.ofList name)).symm
    rw [isSet, NameMap.get?_insert]
    split
    · next heq => simp [← heq]
    · next hother => simp [isSet, hne, Ne.symm hother]
  · next hname =>
    have hother : entry ≠ "-" ++ flag := by
      rintro rfl
      exact hname flag.toList (by simp)
    rw [isSet, NameMap.get?_insert]
    split
    · next heq => simp [heq]
    · next hne => simp [isSet, Ne.symm hne, hother]

/-- A flag is set after entries exactly when the last one that names it is the flag. -/
theorem isSet_enterFlags_iff {flag : String} (hflag : IsFlag flag) {entries : List String} :
    isSet (Layer.enterFlags NameMap.empty entries) flag = true ↔ LastEntryIs flag entries := by
  induction entries using List.reverseRecOn with
  | nil =>
    have hempty : ¬ isSet (Layer.enterFlags NameMap.empty []) flag = true := Bool.false_ne_true
    exact iff_of_false hempty (not_endsOn_nil _ _)
  | append_singleton entries last ih =>
    have hstep : Layer.enterFlags NameMap.empty (entries ++ [last]) =
        Layer.enterFlag (Layer.enterFlags NameMap.empty entries) last := by
      rw [Layer.enterFlags, List.foldl_append]
      rfl
    rw [hstep, isSet_enterFlag_iff hflag, ih]
    exact endsOn_append_singleton.symm

/-! ## Entries of a layer -/

namespace Layer

/-- What a layer says of a package: the entries for all packages come first, and behind them
those under the atoms that the package satisfies. -/
def entriesFor (listed : List String) (entries : List PackageFlags) (target : ConcretePackage) :
    List String :=
  listed ++ entries.flatMap fun entry => if entry.atom.admits target then entry.flags else []

/-- Entries that are filtered by their atoms are those whose atoms the package satisfies. -/
theorem flagsFor_eq_flatMap (entries : List PackageFlags) (target : ConcretePackage) :
    flagsFor entries target =
      entries.flatMap fun entry => if entry.atom.admits target then entry.flags else [] := by
  induction entries with
  | nil => rfl
  | cons entry rest ih =>
    rw [List.flatMap_cons, ← ih, flagsFor, List.filter_cons]
    split <;> rfl

/-- What a layer masks for a package are its masking entries. -/
theorem maskFlags_eq_entriesFor (layer : Layer) (target : ConcretePackage) :
    layer.maskFlags target = entriesFor layer.useMask layer.packageUseMask target := by
  rw [maskFlags, flagsFor_eq_flatMap, entriesFor]

/-- What a layer forces for a package are its forcing entries. -/
theorem forceFlags_eq_entriesFor (layer : Layer) (target : ConcretePackage) :
    layer.forceFlags target = entriesFor layer.useForce layer.packageUseForce target := by
  rw [forceFlags, flagsFor_eq_flatMap, entriesFor]

end Layer

/-! ## Layers in stacking order -/

namespace Source

mutual

/-- The layers that a source applies, bundled ones in order. -/
def layers : Source → List Layer
  | profile p => p.layers
  | user u => [u.profile]
  | fixed _ _ => []
  | bundle sources => layersOfAll sources

/-- The layers that sources apply, one after another. -/
def layersOfAll : List Source → List Layer
  | [] => []
  | s :: rest => s.layers ++ layersOfAll rest

end

/-- The entries that mask flags for a package, in the order in which they are applied. -/
def maskEntries (source : Source) (target : ConcretePackage) : List String :=
  source.layers.flatMap fun layer => Layer.entriesFor layer.useMask layer.packageUseMask target

/-- The entries that force flags for a package, in the order in which they are applied. -/
def forceEntries (source : Source) (target : ConcretePackage) : List String :=
  source.layers.flatMap fun layer => Layer.entriesFor layer.useForce layer.packageUseForce target

mutual

/-- A source applies its layers one after another. -/
theorem applyUse_eq_foldl (target : ConcretePackage) (source : Source) (states : UseStates) :
    source.applyUse target states =
      source.layers.foldl (fun states layer => layer.applyUse target states) states := by
  cases source with
  | profile p => rfl
  | user u => rfl
  | fixed flags provided => rfl
  | bundle sources => exact applyUseAll_eq_foldl target sources states

/-- Sources apply the layers of all of them one after another. -/
theorem applyUseAll_eq_foldl (target : ConcretePackage) (sources : List Source)
    (states : UseStates) : applyUseAll target sources states =
      (layersOfAll sources).foldl (fun states layer => layer.applyUse target states) states := by
  cases sources with
  | nil => rfl
  | cons s rest =>
    rw [applyUseAll, applyUseAll_eq_foldl target rest, applyUse_eq_foldl target s, layersOfAll,
      List.foldl_append]

end

/-- Layers applied one after another enter all that each of them masks and forces. -/
theorem foldl_applyUse (target : ConcretePackage) (layers : List Layer) (states : UseStates) :
    layers.foldl (fun states layer => layer.applyUse target states) states =
      ⟨Layer.enterFlags states.masks (layers.flatMap fun layer => layer.maskFlags target),
        Layer.enterFlags states.forces (layers.flatMap fun layer => layer.forceFlags target)⟩ := by
  induction layers generalizing states with
  | nil => rfl
  | cons layer layers ih =>
    rw [List.foldl_cons, ih, List.flatMap_cons, List.flatMap_cons]
    simp only [Layer.applyUse, Layer.enterFlags, List.foldl_append]

/-- A source enters all its masking and all its forcing entries. -/
theorem applyUse_empty (target : ConcretePackage) (source : Source) :
    source.applyUse target .empty =
      ⟨Layer.enterFlags NameMap.empty (source.maskEntries target),
        Layer.enterFlags NameMap.empty (source.forceEntries target)⟩ := by
  rw [applyUse_eq_foldl, foldl_applyUse, maskEntries, forceEntries]
  simp only [Layer.maskFlags_eq_entriesFor, Layer.forceFlags_eq_entriesFor]
  rfl

end Source

/-! ## Flags that are on -/

/-- A flag is left if it is not masked and was there before or is forced. -/
theorem mem_restrictFlags_iff {states : UseStates} {flags : List String} {flag : String} :
    flag ∈ restrictFlags states flags ↔ ¬ isSet states.masks flag = true ∧
      (isSet states.forces flag = true ∨ flag ∈ flags) := by
  have hname : isSet states.forces flag = true → flag ∈ states.forces.names := by
    intro hset
    rcases hvalue : states.forces.get? flag with _ | value
    · rw [isSet, hvalue] at hset
      cases hset
    · exact NameMap.mem_names_of_get? hvalue
  rw [restrictFlags, NameSet.mem_insertAll, NameSet.mem_ofList]
  simp only [List.mem_filter, Bool.and_eq_true, Bool.not_eq_true', Bool.not_eq_true]
  constructor
  · rintro (⟨hflag, hmask⟩ | ⟨_, hforce, hmask⟩)
    · exact ⟨hmask, Or.inr hflag⟩
    · exact ⟨hmask, Or.inl hforce⟩
  · rintro ⟨hmask, hforce | hflag⟩
    · exact Or.inr ⟨hname hforce, hforce, hmask⟩
    · exact Or.inl ⟨hflag, hmask⟩

/-- How the flags in use come about. -/
theorem useFlags_eq_ok {tree : FileTree} {source : Source} {package : PackageVersion}
    {metadata : Variables} {value defaults : String} {tables : List Variables}
    (hvalue : metadata.value "IUSE" = value)
    (hdefaults : IUse.enabledByDefault value = .ok defaults)
    (htables : (source.packageTables tree package.toConcrete NameMap.empty).2 = .ok tables) :
    useFlags tree source package metadata =
      .ok (restrictFlags (source.applyUse package.toConcrete .empty)
        (Variables.list (Variables.settle (useTable defaults :: tables)) "USE")) := by
  rw [useFlags, hvalue, hdefaults]
  dsimp only [bind, Except.bind]
  rw [htables]
  rfl

/-- A flag is on for a package exactly when it is not masked and is forced or turned on: the
last entry that names it masks or forces it, and the words of the defaults and then of all
tables of the configuration leave it on. -/
theorem mem_useFlags_iff {tree : FileTree} {source : Source} {package : PackageVersion}
    {metadata : Variables} {flags : NameSet}
    (h : useFlags tree source package metadata = .ok flags) {flag : String}
    (hflag : IsFlag flag) :
    ∃ defaults tables, IUse.enabledByDefault (metadata.value "IUSE") = .ok defaults ∧
      (source.packageTables tree package.toConcrete NameMap.empty).2 = .ok tables ∧
      (flag ∈ flags ↔
        ¬ LastEntryIs flag (source.maskEntries package.toConcrete) ∧
          (LastEntryIs flag (source.forceEntries package.toConcrete) ∨
            TurnedOn flag (Text.words defaults ++
              tables.flatMap fun table => Variables.list table "USE"))) := by
  obtain ⟨defaults, hdefaults, h⟩ := bind_eq_ok_iff.1 h
  obtain ⟨tables, htables, h⟩ := bind_eq_ok_iff.1 h
  refine ⟨defaults, tables, hdefaults, htables, ?_⟩
  obtain rfl := Except.ok.inj h
  have hwords : (Variables.settle (useTable defaults :: tables)).list "USE" =
      (finalFlags (Text.words defaults ++
        tables.flatMap fun table => Variables.list table "USE")).toList :=
    Variables.list_settle rfl (useTable defaults :: tables)
  rw [mem_restrictFlags_iff, Source.applyUse_empty, hwords, isSet_enterFlags_iff hflag,
    isSet_enterFlags_iff hflag, ← mem_finalFlags_iff hflag]
  rfl

/-- A package without a revision or anything else behind its version. -/
def samplePackage : PackageVersion :=
  ⟨"c/p", default⟩

/-- A profile that masks two flags and forces one, and a bundle stacked on it.  That has a
profile which lifts one of the masks for the package and forces the flag of the other one for it,
and turns a flag on. -/
def sampleSource : Source :=
  .bundle [
    .profile ⟨"base", useTable "-d c", [{ useMask := ["c", "g"], useForce := ["f"] }]⟩,
    .bundle [
      .profile ⟨"top", NameMap.empty, [{
        packageUseMask := [⟨.ofName "c/p", ["-c"]⟩, ⟨.ofName "c/q", ["f"]⟩]
        packageUseForce := [⟨.ofName "c/p", ["g"]⟩] }]⟩,
      .fixed "e" []]]

/-- The entry for the package comes after the mask for all packages, the flag that is forced is
on, the one that is masked as well is off, and the default is turned off by the profile. -/
theorem lifts_mask_for_package :
    ∃ flags, useFlags default sampleSource samplePackage (NameMap.empty.insert "IUSE" "+d c") =
        .ok flags ∧ flags = NameSet.ofList ["c", "e", "f"] ∧
      sampleSource.maskEntries samplePackage.toConcrete = ["c", "g", "-c"] ∧
      sampleSource.forceEntries samplePackage.toConcrete = ["f", "g"] ∧
      ∀ flag ∈ ["c", "d", "e", "f", "g"], flag ∈ flags ↔
        ¬ LastEntryIs flag ["c", "g", "-c"] ∧
          (LastEntryIs flag ["f", "g"] ∨ TurnedOn flag ["d", "-d", "c", "e"]) := by
  have hone : IUse.enabledByDefault "+d c" = .ok "d" := by
    cbv
  have hflags : useFlags default sampleSource samplePackage
      (NameMap.empty.insert "IUSE" "+d c") = .ok (NameSet.ofList ["c", "e", "f"]) := by
    have hvalue : Variables.value (NameMap.empty.insert "IUSE" "+d c") "IUSE" = "+d c" := rfl
    have htables : (sampleSource.packageTables default samplePackage.toConcrete
        NameMap.empty).2 = .ok [useTable "-d c", NameMap.empty, useTable "e"] := rfl
    rw [useFlags_eq_ok hvalue hone htables]
    rfl
  refine ⟨_, hflags, rfl, rfl, rfl, fun flag hmem => ?_⟩
  have hflag : IsFlag flag := by
    revert flag
    decide
  obtain ⟨defaults, tables, hdefaults, htables, hiff⟩ := mem_useFlags_iff hflags hflag
  obtain rfl : "d" = defaults := Except.ok.inj (hone.symm.trans hdefaults)
  cases htables
  exact hiff

end Configuration
end EbuildGraph
