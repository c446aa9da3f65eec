import EbuildGraph.Proofs.Configuration.UseFlags

/-!
# Package masks of stacked sources

A line of a mask file adds a mask or lifts the equal ones before it.  Layers applied to a list
of masks keep those that none of their lines lifts, and add what they amount to on their own.
The sources of a bundle are asked one after another, each of them from an empty list, so a line
reaches the masks of its own source only.

Main definitions:

- {lit}`stackMasks`: what the mask files of layers amount to.
- {lit}`lifts`: whether a line of some layers lifts a mask.
- {lit}`Source.parts`: the profiles, users and fixed sources that a source stacks.

Main results:

- Theorem {lit}`stackMasks_append`: layers stacked on others.
- Theorem {lit}`maskedPackages_eq_stackMasks_iff`: when the masks of a source are those of all
  its layers stacked.
-/

namespace EbuildGraph
namespace Configuration

/-! ## Mask files on top of one another -/

/-- What the mask files of layers amount to: their lines applied in order to an empty list. -/
def stackMasks (layers : List Layer) : List Atom :=
  layers.foldl (fun masks layer => layer.maskPackages masks) []

/-- Whether a line of some layers lifts a mask. -/
def lifts (layers : List Layer) (mask : Atom) : Bool :=
  (layers.flatMap Layer.packageMask).any fun rule => rule.unmask && mask.same rule.atom

/-- Lines keep the masks that none of them lifts and add what they amount to on their own. -/
theorem foldl_applyRule (rules : List MaskRule) (masks : List Atom) :
    rules.foldl Layer.applyRule masks =
      (masks.filter fun mask => !rules.any fun rule => rule.unmask && mask.same rule.atom) ++
        rules.foldl Layer.applyRule [] := by
  induction rules generalizing masks with
  | nil => simp
  | cons rule rest ih =>
    rw [List.foldl_cons, List.foldl_cons, ih (Layer.applyRule masks rule)]
    by_cases hunmask : rule.unmask = true
    · simp [Layer.applyRule, hunmask, List.filter_filter, Bool.and_comm]
    · rw [ih (Layer.applyRule [] rule)]
      simp [Layer.applyRule, hunmask]

/-- Layers applied one after another apply all their rules one after another. -/
theorem foldl_maskPackages (layers : List Layer) (masks : List Atom) :
    layers.foldl (fun masks layer => layer.maskPackages masks) masks =
      (layers.flatMap Layer.packageMask).foldl Layer.applyRule masks := by
  rw [List.foldl_flatMap]
  rfl

/-- Layers stacked on others keep the masks that they do not lift. -/
theorem stackMasks_append (layers others : List Layer) :
    stackMasks (layers ++ others) =
      (stackMasks layers).filter (fun mask => !lifts others mask) ++ stackMasks others := by
  have hothers : stackMasks others =
      (others.flatMap Layer.packageMask).foldl Layer.applyRule [] := foldl_maskPackages others []
  rw [stackMasks, List.foldl_append, foldl_maskPackages others, foldl_applyRule, hothers]
  rfl

@[simp]
theorem lifts_nil (mask : Atom) : lifts [] mask = false :=
  rfl

@[simp]
theorem lifts_append (layers others : List Layer) (mask : Atom) :
    lifts (layers ++ others) mask = (lifts layers mask || lifts others mask) := by
  simp [lifts]

/-- Layers taken together lift a mask exactly when one group of them does. -/
theorem lifts_flatMap_eq_false_iff {α : Type} {layersOf : α → List Layer} {parts : List α}
    {mask : Atom} : lifts (parts.flatMap layersOf) mask = false ↔
      ∀ part ∈ parts, lifts (layersOf part) mask = false := by
  induction parts with
  | nil => simp
  | cons part rest ih => simp [ih]

/-! ## Groups of layers -/

section Groups

variable {α : Type} (layersOf : α → List Layer)

/-- Stacking all layers leaves no mask that no group of them leaves on its own. -/
theorem stackMasks_sublist (parts : List α) :
    (stackMasks (parts.flatMap layersOf)).Sublist
      (parts.flatMap fun part => stackMasks (layersOf part)) := by
  induction parts with
  | nil => exact List.Sublist.refl _
  | cons part rest ih =>
    rw [List.flatMap_cons, List.flatMap_cons, stackMasks_append]
    exact List.filter_sublist.append ih

/-- Groups of layers amount to the same apart and stacked exactly when no group lifts a mask
that an earlier one leaves. -/
theorem flatMap_stackMasks_eq_iff (parts : List α) :
    (parts.flatMap fun part => stackMasks (layersOf part)) =
        stackMasks (parts.flatMap layersOf) ↔
      parts.Pairwise fun earlier later =>
        ∀ mask ∈ stackMasks (layersOf earlier), lifts (layersOf later) mask = false := by
  induction parts with
  | nil => exact iff_of_true rfl List.Pairwise.nil
  | cons part rest ih =>
    rw [List.flatMap_cons, List.flatMap_cons, stackMasks_append, List.pairwise_cons, ← ih]
    have hkept : (stackMasks (layersOf part)).filter
        (fun mask => !lifts (rest.flatMap layersOf) mask) = stackMasks (layersOf part) ↔
          ∀ later ∈ rest, ∀ mask ∈ stackMasks (layersOf part),
            lifts (layersOf later) mask = false := by
      simp only [List.filter_eq_self, Bool.not_eq_true', lifts_flatMap_eq_false_iff]
      exact ⟨fun h later hlater mask hmask => h mask hmask later hlater,
        fun h mask hmask later hlater => h later hlater mask hmask⟩
    rw [← hkept]
    constructor
    · intro heq
      -- Both parts of the stacked list are at most as long as those of the other one.
      have hfront := (List.filter_sublist (l := stackMasks (layersOf part))
        (p := fun mask => !lifts (rest.flatMap layersOf) mask)).length_le
      have hrest := (stackMasks_sublist layersOf rest).length_le
      have hlength := congrArg List.length heq
      simp only [List.length_append] at hlength
      obtain ⟨hsame, hothers⟩ := List.append_inj heq (by omega)
      exact ⟨hsame.symm, hothers⟩
    · rintro ⟨hsame, hothers⟩
      rw [hsame, hothers]

end Groups

/-! ## Sources -/

namespace Source

mutual

/-- The profiles, users and fixed sources that a source stacks, in order. -/
def parts : Source → List Source
  | profile p => [profile p]
  | user u => [user u]
  | fixed flags provided => [fixed flags provided]
  | bundle sources => partsOfAll sources

/-- The profiles, users and fixed sources that sources stack, one after another. -/
def partsOfAll : List Source → List Source
  | [] => []
  | s :: rest => s.parts ++ partsOfAll rest

end

mutual

/-- The layers of a source are those of its parts. -/
theorem layers_eq_flatMap (source : Source) : source.layers = source.parts.flatMap layers := by
  cases source with
  | profile p => simp [parts]
  | user u => simp [parts]
  | fixed flags provided => simp [parts]
  | bundle sources => exact layersOfAll_eq_flatMap sources

/-- The layers of sources are those of their parts. -/
theorem layersOfAll_eq_flatMap (sources : List Source) :
    layersOfAll sources = (partsOfAll sources).flatMap layers := by
  cases sources with
  | nil => rfl
  | cons s rest =>
    rw [layersOfAll, partsOfAll, List.flatMap_append, ← layers_eq_flatMap s,
      ← layersOfAll_eq_flatMap rest]

end

mutual

/-- The masks of a source are those that its parts amount to one after another. -/
theorem maskedPackages_eq_flatMap (source : Source) :
    source.maskedPackages = source.parts.flatMap fun part => stackMasks part.layers := by
  cases source with
  | profile p => simp [parts, layers, maskedPackages, stackMasks]
  | user u => simp [parts, layers, maskedPackages, stackMasks]
  | fixed flags provided => simp [parts, layers, maskedPackages, stackMasks]
  | bundle sources => exact maskedPackagesAll_eq_flatMap sources

/-- The masks of sources are those that each of their parts stacks on its own. -/
theorem maskedPackagesAll_eq_flatMap (sources : List Source) :
    maskedPackagesAll sources = (partsOfAll sources).flatMap fun part =>
      stackMasks part.layers := by
  cases sources with
  | nil => rfl
  | cons s rest =>
    rw [maskedPackagesAll, partsOfAll, List.flatMap_append, ← maskedPackages_eq_flatMap s,
      ← maskedPackagesAll_eq_flatMap rest]

end

/-- The masks of a source are those that the layers of each of its parts amount to, one part
after another, with all that the stacked layers of the whole source leave.  They are no more
than these exactly when no line of a later part lifts a mask that an earlier part leaves. -/
theorem maskedPackages_eq_stackMasks_iff (source : Source) :
    source.maskedPackages = (source.parts.flatMap fun part => stackMasks part.layers) ∧
      (stackMasks source.layers).Sublist source.maskedPackages ∧
      (source.maskedPackages = stackMasks source.layers ↔
        source.parts.Pairwise fun earlier later =>
          ∀ mask ∈ stackMasks earlier.layers, lifts later.layers mask = false) := by
  have hmasks := maskedPackages_eq_flatMap source
  have hlayers := layers_eq_flatMap source
  refine ⟨hmasks, ?_, ?_⟩
  · rw [hmasks, hlayers]
    exact stackMasks_sublist layers source.parts
  · rw [hmasks, hlayers]
    exact flatMap_stackMasks_eq_iff layers source.parts

/-- A profile that masks a package, and the user's configuration that lifts this mask. -/
def sampleUnmask : Source :=
  .bundle [
    .profile ⟨"base", NameMap.empty, [{ packageMask := [⟨.ofName "dev-libs/bad", false⟩] }]⟩,
    .user ⟨⟨"/board"⟩, {}, { packageMask := [⟨.ofName "dev-libs/bad", true⟩] }⟩]

/-- The mask of the profile stays, although the stacked layers leave none. -/
theorem maskedPackages_sampleUnmask :
    sampleUnmask.maskedPackages = [.ofName "dev-libs/bad"] ∧
      stackMasks sampleUnmask.layers = [] ∧
      ¬ sampleUnmask.maskedPackages = stackMasks sampleUnmask.layers := by
  decide

end Source

end Configuration
end EbuildGraph
