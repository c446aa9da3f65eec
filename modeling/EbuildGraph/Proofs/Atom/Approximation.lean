import EbuildGraph.Proofs.Atom.Equality

/-!
# Atoms that disregard revisions

An approximate bound takes the revision off the version that it is held against, and compares
what is left with its own version as that is written.  So the revision of a package never counts.
The revision of the atom does: unless it is zero, nothing without revision is equal to it, and
the atom is satisfied by no package, not even by one of exactly its version.

Main definition:

- {lit}`Version.isUnrevised`: a version without revision, or with one that is zero.

Main results:

- Theorem {lit}`Version.same_withoutRevision_iff`: what is equal to a version without revision.
- Theorem {lit}`Atom.admits_approximate`: which packages satisfy an atom with an approximate
  bound.
-/

namespace EbuildGraph

/-- Zeros alone are worth nothing. -/
theorem valueKey_eq_nil_iff {digits : List Char} :
    valueKey digits = valueKey [] ↔ digits.all (· == '0') = true := by
  rw [valueKey, valueKey, List.dropWhile_nil, Prod.mk.injEq, and_iff_right_of_imp (congrArg _)]
  simp

namespace Version

/-- Whether a version has no revision, or one that is spelled with zeros only. -/
def isUnrevised (v : Version) : Bool :=
  (optionalDigits v.revision).all (· == '0')

theorem isUnrevised_iff {v : Version} :
    v.isUnrevised = true ↔ valueKey (optionalDigits v.revision) = valueKey [] :=
  valueKey_eq_nil_iff.symm

/-- A version is equal to another one without its revision when it is unrevised and equal to it
once neither has a revision. -/
theorem same_withoutRevision_iff {v w : Version} : v.withoutRevision.same w = true ↔
    w.isUnrevised = true ∧ v.withoutRevision.same w.withoutRevision = true := by
  rw [same_iff_key_eq, same_iff_key_eq, isUnrevised_iff]
  constructor
  · intro h
    obtain ⟨_, _, _, _, hrevision⟩ := key_eq_iff.1 h
    exact ⟨hrevision.symm, key_withoutRevision (v := v.withoutRevision) h⟩
  · rintro ⟨hrevision, h⟩
    obtain ⟨hmajor, hminor, hletter, hsuffixes, _⟩ := key_eq_iff.1 h
    exact key_eq_iff.2 ⟨hmajor, hminor, hletter, hsuffixes, hrevision.symm⟩

end Version

namespace Atom

/-- A package of the name and in the slot that an atom asks for satisfies it with an approximate
bound when the version of the bound is unrevised and equal to that of the package once neither
has a revision. -/
theorem admits_withBound_approximate_iff {a : Atom} {t : ConcretePackage}
    (hname : t.name = a.name) (hslot : ∀ slot ∈ a.wantedSlot?, t.slot = slot) (v : Version) :
    (a.withBound .approximate v).admits t = true ↔ v.isUnrevised = true ∧
      t.version.withoutRevision.same v.withoutRevision = true := by
  rw [← Version.same_withoutRevision_iff, admits_iff]
  constructor
  · rintro ⟨_, _, hbound⟩
    exact hbound _ rfl
  · intro h
    refine ⟨hname, hslot, fun b hb => ?_⟩
    obtain rfl := Option.some.inj hb
    exact h

/-- Of the packages with the name and the slot that it asks for, an atom with an approximate
bound is satisfied by those whose version is equal to that of the bound once neither has a
revision, provided that the bound has none but zero, and else by none of them.  Another revision
of the package never makes a difference, and another revision of the bound makes none as long as
both are zero. -/
theorem admits_approximate (a : Atom) (v : Version) (t : ConcretePackage)
    (hname : t.name = a.name) (hslot : ∀ slot ∈ a.wantedSlot?, t.slot = slot) :
    ((a.withBound .approximate v).admits t = true ↔ v.isUnrevised = true ∧
      t.version.withoutRevision.same v.withoutRevision = true) ∧
    (∀ revision, (a.withBound .approximate v).admits
        { t with version := { t.version with revision } } =
      (a.withBound .approximate v).admits t) ∧
    ∀ revision, v.isUnrevised = true → { v with revision }.isUnrevised = true →
      (a.withBound .approximate { v with revision }).admits t =
        (a.withBound .approximate v).admits t := by
  have hiff := admits_withBound_approximate_iff hname hslot
  refine ⟨hiff v, fun revision => ?_, fun revision hv hrevised => ?_⟩
  · have hrevised := admits_withBound_approximate_iff (a := a)
      (t := { t with version := { t.version with revision } }) hname hslot v
    rw [Bool.eq_iff_iff, hrevised, hiff v]
    exact Iff.rfl
  · rw [Bool.eq_iff_iff, hiff, hiff, hv, hrevised]
    exact Iff.rfl

/-- A slot of a package, with a bound that disregards revisions. -/
def sampleApproximate (v : Version) : Atom :=
  { ofName "dev-libs/foo" with slot := "2/3=" }.withBound .approximate v

/-- A version of the package in that slot. -/
def sampleSlotted (v : Version) : ConcretePackage :=
  ⟨"dev-libs/foo", v, "2", .empty⟩

/-- The bounds {lit}`0.01` and {lit}`0.01-r00` are both satisfied by {lit}`0.010-r7` and by
{lit}`0.010`. -/
theorem admits_sampleApproximate :
    let fraction : Numeral := ⟨['0', '1'], by decide, by decide⟩
    let v := Version.ofZeroPoint fraction none []
    let found := Version.ofZeroPoint ⟨['0', '1', '0'], by decide, by decide⟩ none []
    let zeros : Option Numeral := some ⟨['0', '0'], by decide, by decide⟩
    let seven : Option Numeral := some ⟨['7'], by decide, by decide⟩
    (sampleApproximate (v none)).admits (sampleSlotted (found seven)) = true ∧
      (sampleApproximate (v none)).admits (sampleSlotted (found none)) =
        (sampleApproximate (v none)).admits (sampleSlotted (found seven)) ∧
      (sampleApproximate (v zeros)).admits (sampleSlotted (found seven)) =
        (sampleApproximate (v none)).admits (sampleSlotted (found seven)) := by
  intro fraction v found zeros seven
  obtain ⟨hadmits, hfound, hbound⟩ := admits_approximate
    { ofName "dev-libs/foo" with slot := "2/3=" } (v none) (sampleSlotted (found seven)) rfl
    (by decide)
  exact ⟨hadmits.2 ⟨by decide, by decide⟩, hfound none, hbound zeros (by decide) (by decide)⟩

/-- The bound {lit}`0.0-r1` is satisfied neither by {lit}`0.0-r1` nor by {lit}`0.0`, which are
equal to it once no version has a revision, and without its revision by both. -/
theorem admits_approximate_revised :
    let spelled := Version.ofZeroPoint .zero none []
    let one : Option Numeral := some ⟨['1'], by decide, by decide⟩
    let a := (ofName "dev-libs/foo").withBound .approximate
    parse "~dev-libs/foo-0.0-r1" = .ok (a (spelled one)) ∧
      (∀ revision ∈ [none, one],
        (spelled revision).withoutRevision.same (spelled one).withoutRevision = true ∧
        ¬ (a (spelled one)).admits (samplePackage (spelled revision)) = true ∧
        ¬ (a (spelled one)).admits (samplePackage (spelled revision)) =
          (a (spelled none)).admits (samplePackage (spelled revision))) := by
  intro spelled one a
  have hname : checkQualified "dev-libs/foo" = .ok () := by decide
  exact ⟨parse_withBound hname .approximate (spelled one), by decide⟩

end Atom
end EbuildGraph
