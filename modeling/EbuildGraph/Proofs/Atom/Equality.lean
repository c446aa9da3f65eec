import EbuildGraph.Proofs.Atom.Matching
import EbuildGraph.Proofs.Configuration.PackageMasks

/-!
# Equal atoms

Atoms are equal when they differ at most in how an equal version is spelled.  A spelling matters
to patterns only: a pattern without revision admits the revisions of what it admits, and one with
the revision zero does not, although their versions are equal.  All other equal atoms admit the
same packages, so that what a line of a mask file lifts masks what the line names.

Main definitions:

- {lit}`ConcretePackage.same`: packages that differ at most in how a version is spelled.
- {lit}`Atom.agreesOnRevision`: atoms that are not two patterns of which one has a revision.

Main results:

- Theorem {lit}`Comparison.holds_congr`: equal versions stand in the same relations.
- Theorem {lit}`Atom.admits_same`: equal atoms admit equal packages alike.
- Theorem {lit}`Atom.same_admits_iff`: exactly those that agree on revisions.
-/

namespace EbuildGraph

/-- Whether two packages differ at most in the spelling of an equal version. -/
def ConcretePackage.same (s t : ConcretePackage) : Bool :=
  s.name == t.name && s.version.same t.version && s.slot == t.slot && s.useFlags == t.useFlags

/-- Packages are the same with the same name, slot and flags and with equal versions, however these
are spelled. -/
theorem ConcretePackage.same_iff {s t : ConcretePackage} :
    s.same t = true ↔ s.name = t.name ∧ s.version.key = t.version.key ∧ s.slot = t.slot ∧
      s.useFlags = t.useFlags := by
  simp only [same, Bool.and_eq_true, beq_iff_eq, Version.same_iff_key_eq, and_assoc]

theorem ConcretePackage.same_self (t : ConcretePackage) : t.same t = true :=
  same_iff.2 ⟨rfl, rfl, rfl, rfl⟩

/-! ## Relations between versions -/

/-- Equal versions are equal without their revisions, too. -/
theorem Version.key_withoutRevision {v w : Version} (h : v.key = w.key) :
    v.withoutRevision.key = w.withoutRevision.key := by
  obtain ⟨hmajor, hminor, hletter, hsuffixes, _⟩ := key_eq_iff.1 h
  exact key_eq_iff.2 ⟨hmajor, hminor, hletter, hsuffixes, rfl⟩

/-- Equal versions stand in the same relations to equal ones, unless only one of two patterns
has a revision. -/
theorem Comparison.holds_congr {v w p q : Version} (comparison : Comparison)
    (hvw : v.key = w.key) (hpq : p.key = q.key)
    (hrevision : comparison = .pattern → p.revision.isNone = q.revision.isNone) :
    comparison.holds v p = comparison.holds w q := by
  have hcompare : v.compare p = w.compare q := by
    rw [Version.compare_eq_compare_key, Version.compare_eq_compare_key, hvw, hpq]
  cases comparison with
  | less | lessEqual | equal | greaterEqual | greater => rw [holds, holds, hcompare]
  | pattern => exact Version.fitsPattern_congr hvw hpq (hrevision rfl)
  | approximate =>
    rw [holds, holds, Version.compare_eq_compare_key, Version.compare_eq_compare_key,
      Version.key_withoutRevision hvw, hpq]

namespace Atom

/-! ## Equal atoms -/

/-- Atoms are the same with the same name, slot and flags, and with no bound or with bounds that
compare alike with equal versions. -/
theorem same_iff {a b : Atom} :
    a.same b = true ↔ a.name = b.name ∧ a.slot = b.slot ∧ a.useDependencies = b.useDependencies ∧
      (a.bound = none ∧ b.bound = none ∨ ∃ x y, a.bound = some x ∧ b.bound = some y ∧
        x.comparison = y.comparison ∧ x.version.key = y.version.key) := by
  simp only [same, Bool.and_eq_true, beq_iff_eq, and_assoc]
  rcases a.bound with _ | x <;> rcases b.bound with _ | y <;> simp [Version.same_iff_key_eq]

theorem wantedSlot?_congr {a b : Atom} (h : a.slot = b.slot) : a.wantedSlot? = b.wantedSlot? := by
  rw [wantedSlot?, wantedSlot?, h]

/-- Whether two atoms are not two patterns of which only one has a revision. -/
def agreesOnRevision (a b : Atom) : Bool :=
  match a.bound, b.bound with
  | some x, some y =>
    x.comparison != .pattern || y.comparison != .pattern ||
      x.version.revision.isNone == y.version.revision.isNone
  | _, _ => true

/-- Equal atoms admit equal packages alike, unless they are patterns of which only one has a
revision. -/
theorem admits_same {a b : Atom} {s t : ConcretePackage} (hab : a.same b = true)
    (hrevision : a.agreesOnRevision b = true) (hst : s.same t = true) :
    a.admits s = b.admits t := by
  obtain ⟨hname, hslot, _, hbound⟩ := same_iff.1 hab
  obtain ⟨htName, htVersion, htSlot, _⟩ := ConcretePackage.same_iff.1 hst
  rw [admits, admits, hname, htName, htSlot, wantedSlot?_congr hslot]
  rcases hbound with ⟨ha, hb⟩ | ⟨x, y, ha, hb, hcomparison, hversion⟩
  · rw [ha, hb]
  · have hpattern : x.comparison = .pattern →
        x.version.revision.isNone = y.version.revision.isNone := by
      intro hx
      simpa [agreesOnRevision, ha, hb, hx, hcomparison ▸ hx] using hrevision
    rw [ha, hb]
    dsimp only
    rw [← hcomparison, x.comparison.holds_congr htVersion hversion hpattern]

/-! ## Patterns with the revision zero -/

/-- A version of the package that an atom names, in the slot that it asks for. -/
def packageAt (a : Atom) (v : Version) : ConcretePackage :=
  ⟨a.name, v, a.wantedSlot?.getD "", .empty⟩

/-- Of the packages with the name and the slot of an atom its bound alone decides. -/
theorem admits_packageAt {a b : Atom} {x : VersionBound} (hname : a.name = b.name)
    (hslot : a.slot = b.slot) (hbound : b.bound = some x) (v : Version) :
    b.admits (a.packageAt v) = x.comparison.holds v x.version := by
  rw [Bool.eq_iff_iff, admits_iff, hbound, packageAt, wantedSlot?_congr hslot]
  cases b.wantedSlot? <;> simp [hname]

/-- Of equal patterns of which only one has a revision not both admit the same versions. -/
theorem exists_admits_ne {a b : Atom} (hab : a.same b = true)
    (hrevision : a.agreesOnRevision b = false) :
    ∃ t : ConcretePackage, a.admits t ≠ b.admits t := by
  obtain ⟨hname, hslot, _, hbound⟩ := same_iff.1 hab
  rcases hbound with ⟨ha, hb⟩ | ⟨x, y, ha, hb, _, hversion⟩
  · simp [agreesOnRevision, ha] at hrevision
  obtain ⟨⟨hx, hy⟩, hne⟩ : (x.comparison = .pattern ∧ y.comparison = .pattern) ∧
      x.version.revision.isNone ≠ y.version.revision.isNone := by
    simpa [agreesOnRevision, ha, hb] using hrevision
  have hadmitsA : ∀ v, a.admits (a.packageAt v) = v.fitsPattern x.version := by
    intro v
    rw [admits_packageAt rfl rfl ha, hx, Comparison.holds]
  have hadmitsB : ∀ v, b.admits (a.packageAt v) = v.fitsPattern y.version := by
    intro v
    rw [admits_packageAt hname hslot hb, hy, Comparison.holds]
  have htold : ∃ v : Version, v.fitsPattern x.version ≠ v.fitsPattern y.version := by
    rcases hxNone : x.version.revision.isNone with _ | _ <;>
      rcases hyNone : y.version.revision.isNone with _ | _
    · exact absurd (hxNone.trans hyNone.symm) hne
    · obtain ⟨v, hvy, hvx⟩ := Version.exists_fitsPattern_of_revised hversion.symm hyNone hxNone
      exact ⟨v, by simp [hvx, hvy]⟩
    · obtain ⟨v, hvx, hvy⟩ := Version.exists_fitsPattern_of_revised hversion hxNone hyNone
      exact ⟨v, by simp [hvx, hvy]⟩
    · exact absurd (hxNone.trans hyNone.symm) hne
  obtain ⟨v, hv⟩ := htold
  exact ⟨a.packageAt v, by rwa [hadmitsA, hadmitsB]⟩

/-! ## Lifted masks -/

/-- A mask that a layer removes is equal to the atom of a line that lifts masks. -/
theorem exists_same_of_not_mem_maskPackages {layer : Configuration.Layer} {masks : List Atom}
    {mask : Atom} (hmask : mask ∈ masks) (hremoved : mask ∉ layer.maskPackages masks) :
    ∃ line ∈ layer.packageMask, line.unmask = true ∧ mask.same line.atom = true := by
  rw [Configuration.Layer.maskPackages, Configuration.foldl_applyRule, List.mem_append,
    not_or] at hremoved
  simpa [hmask] using hremoved.1

/-- Equal atoms admit equal packages alike exactly when they are not patterns of which only one
has a revision.  So a mask that a layer of configuration removes has the same effect as the atom
of a line that lifts it, but for such patterns. -/
theorem same_admits_iff :
    (∀ a b : Atom, a.same b = true →
      ((∀ s t : ConcretePackage, s.same t = true → a.admits s = b.admits t) ↔
        a.agreesOnRevision b = true)) ∧
      ∀ (layer : Configuration.Layer) (masks : List Atom) (mask : Atom), mask ∈ masks →
        mask ∉ layer.maskPackages masks →
        ∃ line ∈ layer.packageMask, line.unmask = true ∧ mask.same line.atom = true ∧
          (mask.agreesOnRevision line.atom = true → ∀ s t : ConcretePackage, s.same t = true →
            mask.admits s = line.atom.admits t) := by
  constructor
  · intro a b hab
    constructor
    · intro h
      by_contra hrevision
      obtain ⟨t, ht⟩ := exists_admits_ne hab (by simpa using hrevision)
      exact ht (h t t t.same_self)
    · intro hrevision s t hst
      exact admits_same hab hrevision hst
  · intro layer masks mask hmask hremoved
    obtain ⟨line, hline, hunmask, hsame⟩ := exists_same_of_not_mem_maskPackages hmask hremoved
    exact ⟨line, hline, hunmask, hsame, fun hrevision s t hst => admits_same hsame hrevision hst⟩

/-- The pattern of a version of a package. -/
def samplePattern (v : Version) : Atom :=
  (ofName "dev-libs/foo").withBound .pattern v

/-- The patterns {lit}`0.0` and {lit}`0.00` admit {lit}`0.0-r1` and {lit}`0.00-r01` alike, so the
latter may lift the former. -/
theorem same_admits_samplePattern :
    let spelled := Version.ofZeroPoint .zero none []
    let respelled := Version.ofZeroPoint ⟨['0', '0'], by decide, by decide⟩ none []
    let a := samplePattern (spelled none)
    let b := samplePattern (respelled none)
    let s := samplePackage (spelled (some ⟨['1'], by decide, by decide⟩))
    let t := samplePackage (respelled (some ⟨['0', '1'], by decide, by decide⟩))
    let layer : Configuration.Layer := { packageMask := [⟨b, true⟩] }
    a.same b = true ∧ a.agreesOnRevision b = true ∧ s.same t = true ∧ a.admits s = b.admits t ∧
      a ∈ [a] ∧ a ∉ layer.maskPackages [a] ∧ ∃ line ∈ layer.packageMask, line.unmask = true := by
  intro spelled respelled a b s t layer
  obtain ⟨halike, hlifted⟩ := same_admits_iff
  have hsame : a.same b = true := by decide
  have hrevision : a.agreesOnRevision b = true := by decide
  have hst : s.same t = true := by decide
  have hremoved : a ∉ layer.maskPackages [a] := by decide
  obtain ⟨line, hline, hunmask, _⟩ := hlifted layer [a] a List.mem_cons_self hremoved
  exact ⟨hsame, hrevision, hst, (halike a b hsame).2 hrevision s t hst, List.mem_cons_self,
    hremoved, line, hline, hunmask⟩

/-- The pattern {lit}`0.0` admits {lit}`0.0-r1` and the equal one {lit}`0.0-r0` does not, but
lifts it. -/
theorem admits_samplePattern_revised :
    let spelled := Version.ofZeroPoint .zero none []
    let a := samplePattern (spelled none)
    let b := samplePattern (spelled (some .zero))
    let t := samplePackage (spelled (some ⟨['1'], by decide, by decide⟩))
    parse "=dev-libs/foo-0.0*" = .ok a ∧ parse "=dev-libs/foo-0.0-r0*" = .ok b ∧
      a.same b = true ∧ t.same t = true ∧ a.admits t = true ∧ b.admits t = false ∧
      ¬ a.admits t = b.admits t ∧
      Configuration.Layer.maskPackages { packageMask := [⟨b, true⟩] } [a] = [] := by
  intro spelled a b t
  have hname : checkQualified "dev-libs/foo" = .ok () := by decide
  exact ⟨parse_withBound hname .pattern (spelled none),
    parse_withBound hname .pattern (spelled (some .zero)), by decide⟩

end Atom
end EbuildGraph
