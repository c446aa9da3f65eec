import EbuildGraph.Proofs.Atom.Text
import EbuildGraph.Proofs.Version.Interval

/-!
# Packages that satisfy an atom

An atom asks for a name and may ask for a slot and bound the version.  Of packages with the same
name and slot only their versions decide, and those of the satisfying ones are an interval.
Without a slot the bounds of one version divide the packages of that name among them.

Main results:

- Theorem {lit}`admits_iff`: what an atom asks for.
- Theorem {lit}`parse_withBound`: how an atom with a bound is written.
- Theorem {lit}`admits_withBound`: a bound decides for packages of the name that an atom gives.
- Theorem {lit}`admits_interval`: intervals of versions, and the bounds by one version.
-/

namespace EbuildGraph
namespace Atom

/-- The parts of a package that an atom asks for. -/
theorem admits_iff {a : Atom} {t : ConcretePackage} :
    a.admits t = true ↔ t.name = a.name ∧ (∀ slot ∈ a.wantedSlot?, t.slot = slot) ∧
      ∀ b ∈ a.bound, b.comparison.holds t.version b.version = true := by
  rw [admits, Bool.and_eq_true, Bool.and_eq_true, beq_iff_eq, and_assoc]
  cases a.wantedSlot? <;> cases a.bound <;> simp

/-- An atom with another bound for the version. -/
def withBound (a : Atom) (comparison : Comparison) (v : Version) : Atom :=
  { a with bound := some ⟨comparison, v⟩ }

/-- An operator, a name and a version are read as a bound on the version. -/
theorem parse_withBound {n : String} (hname : checkQualified n = .ok ()) (comparison : Comparison)
    (v : Version) : parse (comparison.operator ++ n ++ "-" ++ v.text ++ comparison.star) =
      .ok ((ofName n).withBound comparison v) := by
  have hread : parse (assemble n (some (comparison, v.text)) none []) =
      .ok ((ofName n).withBound comparison v) :=
    parse_assemble (a := (ofName n).withBound comparison v) hname rfl List.not_mem_nil
      List.not_mem_nil nofun
  simpa only [assemble, frontText, slotText, useText, if_true, String.append_empty] using hread

/-- Where an atom asks for no slot, its bound decides for the packages of its name. -/
theorem admits_withBound {a : Atom} {t : ConcretePackage} (hslot : a.wantedSlot? = none)
    (hname : t.name = a.name) (comparison : Comparison) (v : Version) :
    (a.withBound comparison v).admits t = comparison.holds t.version v := by
  have hslot' : (a.withBound comparison v).wantedSlot? = none := hslot
  rw [Bool.eq_iff_iff, admits_iff, hslot']
  simp [withBound, hname]

/-- Of three packages with the same name and slot, ordered by their versions, an atom that the
outer ones satisfy is satisfied by the one between them.  Where an atom asks for no slot, a
package of its name satisfies it with exactly one of the bounds {lit}`<`, {lit}`=` and {lit}`>`
by a version, with {lit}`<=` when not with {lit}`>`, and with {lit}`>=` when not with
{lit}`<`. -/
theorem admits_interval :
    (∀ (a : Atom) (s t u : ConcretePackage), s.name = t.name → u.name = t.name →
      s.slot = t.slot → u.slot = t.slot → (s.version.compare t.version).isLE = true →
      (t.version.compare u.version).isLE = true → a.admits s = true → a.admits u = true →
      a.admits t = true) ∧
    ∀ (a : Atom) (v : Version) (t : ConcretePackage), a.wantedSlot? = none → t.name = a.name →
      [Comparison.less, .equal, .greater].countP
          (fun comparison => (a.withBound comparison v).admits t) = 1 ∧
        ((a.withBound .lessEqual v).admits t = true ↔
          ¬ (a.withBound .greater v).admits t = true) ∧
        ((a.withBound .greaterEqual v).admits t = true ↔
          ¬ (a.withBound .less v).admits t = true) := by
  constructor
  · intro a s t u hs hu hsSlot huSlot hst htu has hau
    obtain ⟨hname, hslot, hsBound⟩ := admits_iff.1 has
    obtain ⟨_, _, huBound⟩ := admits_iff.1 hau
    refine admits_iff.2 ⟨hs ▸ hname, hsSlot ▸ hslot, ?_⟩
    intro b hb
    exact b.comparison.isInterval_holds b.version hst htu (hsBound b hb) (huBound b hb)
  · intro a v t hslot hname
    simp only [admits_withBound hslot hname, Comparison.holds, List.countP_cons, List.countP_nil]
    cases t.version.compare v <;> simp

/-- A version of a package. -/
def samplePackage (v : Version) : ConcretePackage :=
  ⟨"dev-libs/foo", v, "0", .empty⟩

/-- The pattern {lit}`0.01` is fitted by {lit}`0.01_rc` and {lit}`0.01b`, and by {lit}`0.01-r2`
between them, which one of three bounds by {lit}`0.010` admits. -/
theorem admits_samplePackage :
    let plain : Numeral := ⟨['0', '1'], by decide, by decide⟩
    let revised := Version.ofZeroPoint plain none [] (some ⟨['2'], by decide, by decide⟩)
    let candidate := Version.ofZeroPoint plain none [⟨.rc, none⟩] none
    let lettered := Version.ofZeroPoint plain (some ⟨'b', by decide⟩) [] none
    let respelled := Version.ofZeroPoint ⟨['0', '1', '0'], by decide, by decide⟩ none [] none
    let pattern := (ofName "dev-libs/foo").withBound .pattern (.ofZeroPoint plain none [] none)
    (candidate.compare revised).isLE = true ∧ (revised.compare lettered).isLE = true ∧
      pattern.admits (samplePackage candidate) = true ∧
      pattern.admits (samplePackage lettered) = true ∧
      pattern.admits (samplePackage revised) = true ∧
      (ofName "dev-libs/foo").wantedSlot? = none ∧
      [Comparison.less, .equal, .greater].countP (fun comparison =>
        ((ofName "dev-libs/foo").withBound comparison respelled).admits
          (samplePackage revised)) = 1 := by
  intro plain revised candidate lettered respelled pattern
  obtain ⟨hinterval, hbounds⟩ := admits_interval
  have hlow : (candidate.compare revised).isLE = true := by decide
  have hhigh : (revised.compare lettered).isLE = true := by decide
  have hcandidate : pattern.admits (samplePackage candidate) = true := by decide
  have hlettered : pattern.admits (samplePackage lettered) = true := by decide
  have hslot : (ofName "dev-libs/foo").wantedSlot? = none := by decide
  exact ⟨hlow, hhigh, hcandidate, hlettered,
    hinterval pattern _ (samplePackage revised) _ rfl rfl rfl rfl hlow hhigh hcandidate hlettered,
    hslot, (hbounds _ respelled (samplePackage revised) hslot rfl).1⟩

end Atom
end EbuildGraph
