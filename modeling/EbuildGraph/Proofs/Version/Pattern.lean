import EbuildGraph.Proofs.Version.Order

/-!
# Patterns of versions

A pattern with a revision is fitted by the versions that are equal to it.  A pattern without one
is the beginning of the versions that fit it: of their numbers, if it consists of numbers, and
else of their suffixes, behind the same numbers and the same letter.  Beginnings form a tree.
What a beginning of a version begins with is a beginning of the version, and of two beginnings of
one version either begins the other.

Main definitions:

- {lit}`Begins`: a version spells what another one begins with.

Main results:

- Theorem {lit}`fitsPattern_iff_begins`: the versions that fit a pattern without revision.
- Theorem {lit}`Begins.trans`: beginnings of beginnings.
- Theorem {lit}`Begins.total`: two beginnings of one version.
- Theorem {lit}`fitsPattern_hierarchy`: the laws of patterns.
-/

namespace EbuildGraph
namespace Version

attribute [local instance] lexOrd

/-! ## Parts of the key -/

/-- The later numbers of a version as they are compared. -/
def minorKeys (v : Version) : List (Nat × List Char) :=
  v.minor.map Numeral.fractionKey

/-- The suffixes of a version as they are compared. -/
def suffixKeys (v : Version) : List (Nat × Nat × List Char) :=
  v.suffixes.map Suffix.key

/-- Whether a version consists of numbers, but for a revision. -/
def isNumeric (v : Version) : Bool :=
  v.suffixes.isEmpty && v.letter.isNone

/-- Two versions have one key if their parts have, one by one. -/
theorem key_eq_iff {v w : Version} :
    v.key = w.key ↔ valueKey v.major.digits = valueKey w.major.digits ∧
      v.minorKeys = w.minorKeys ∧ letterKey v.letter = letterKey w.letter ∧
      v.suffixKeys = w.suffixKeys ∧
      valueKey (optionalDigits v.revision) = valueKey (optionalDigits w.revision) := by
  simp only [key, Prod.mk.injEq, suffixesKey, List.append_cancel_right_eq]
  rfl

/-- A numeric version has neither letter nor suffixes. -/
theorem isNumeric_iff {v : Version} :
    v.isNumeric = true ↔ v.suffixKeys = [] ∧ letterKey v.letter = none := by
  simp [isNumeric, suffixKeys, letterKey]

/-! ## Beginnings -/

/-- What a version spells, but for its revision, is what another one begins with. -/
inductive Begins (p v : Version) : Prop where
  | numeric (hp : p.isNumeric = true) (major : valueKey p.major.digits = valueKey v.major.digits)
      (minor : p.minorKeys <+: v.minorKeys)
  | detailed (hp : p.isNumeric = false) (major : valueKey p.major.digits = valueKey v.major.digits)
      (minor : p.minorKeys = v.minorKeys) (letter : letterKey p.letter = letterKey v.letter)
      (suffixes : p.suffixKeys <+: v.suffixKeys)

/-- A numeric version begins those with the same major part whose minor parts go on from its own. -/
theorem begins_iff_of_numeric {p v : Version} (hp : p.isNumeric = true) :
    p.Begins v ↔ valueKey p.major.digits = valueKey v.major.digits ∧
      p.minorKeys <+: v.minorKeys := by
  constructor
  · intro h
    cases h with
    | numeric _ hmajor hminor => exact ⟨hmajor, hminor⟩
    | detailed hp' => simp [hp] at hp'
  · rintro ⟨hmajor, hminor⟩
    exact .numeric hp hmajor hminor

/-- A version with a letter or a suffix begins those with the same numbers and letter whose suffixes
go on from its own. -/
theorem begins_iff_of_detailed {p v : Version} (hp : p.isNumeric = false) :
    p.Begins v ↔ valueKey p.major.digits = valueKey v.major.digits ∧ p.minorKeys = v.minorKeys ∧
      letterKey p.letter = letterKey v.letter ∧ p.suffixKeys <+: v.suffixKeys := by
  constructor
  · intro h
    cases h with
    | numeric hp' => simp [hp] at hp'
    | detailed _ hmajor hminor hletter hsuffixes => exact ⟨hmajor, hminor, hletter, hsuffixes⟩
  · rintro ⟨hmajor, hminor, hletter, hsuffixes⟩
    exact .detailed hp hmajor hminor hletter hsuffixes

/-- A version begins every version that is equal to it. -/
theorem Begins.of_key_eq {p v : Version} (h : p.key = v.key) : p.Begins v := by
  obtain ⟨hmajor, hminor, hletter, hsuffixes, _⟩ := key_eq_iff.1 h
  cases hp : p.isNumeric with
  | true => exact .numeric hp hmajor (hminor ▸ List.prefix_rfl)
  | false => exact .detailed hp hmajor hminor hletter (hsuffixes ▸ List.prefix_rfl)

/-- A version begins its own revisions. -/
theorem begins_revised (p : Version) (revision : Option Numeral) :
    p.Begins { p with revision } := by
  cases hp : p.isNumeric with
  | true => exact .numeric hp rfl List.prefix_rfl
  | false => exact .detailed hp rfl rfl rfl List.prefix_rfl

/-- What begins with letters or suffixes has them itself. -/
theorem Begins.isNumeric {q p : Version} (h : q.Begins p) (hp : p.isNumeric = true) :
    q.isNumeric = true := by
  cases h with
  | numeric hq _ _ => exact hq
  | detailed _ _ _ hletter hsuffixes =>
    obtain ⟨hnone, hletterNone⟩ := isNumeric_iff.1 hp
    rw [hnone] at hsuffixes
    exact isNumeric_iff.2 ⟨List.prefix_nil.1 hsuffixes, hletter.trans hletterNone⟩

/-- What a beginning of a version begins with is a beginning of the version. -/
theorem Begins.trans {q p v : Version} (hqp : q.Begins p) (hpv : p.Begins v) : q.Begins v := by
  cases hpv with
  | numeric hp hmajor hminor =>
    have hnumeric := hqp.isNumeric hp
    cases hqp with
    | numeric hq hmajor' hminor' =>
      exact .numeric hq (hmajor'.trans hmajor) (hminor'.trans hminor)
    | detailed hq _ _ _ _ => simp [hnumeric] at hq
  | detailed _ hmajor hminor hletter hsuffixes =>
    cases hqp with
    | numeric hq hmajor' hminor' => exact .numeric hq (hmajor'.trans hmajor) (hminor ▸ hminor')
    | detailed hq hmajor' hminor' hletter' hsuffixes' =>
      exact .detailed hq (hmajor'.trans hmajor) (hminor'.trans hminor) (hletter'.trans hletter)
        (hsuffixes'.trans hsuffixes)

/-- Of two beginnings of one version either begins the other. -/
theorem Begins.total {p q v : Version} (hp : p.Begins v) (hq : q.Begins v) :
    p.Begins q ∨ q.Begins p := by
  cases hp with
  | numeric hp hmajor hminor =>
    cases hq with
    | numeric hq hmajor' hminor' =>
      rcases List.prefix_or_prefix_of_prefix hminor hminor' with h | h
      · exact Or.inl (.numeric hp (hmajor.trans hmajor'.symm) h)
      · exact Or.inr (.numeric hq (hmajor'.trans hmajor.symm) h)
    | detailed _ hmajor' hminor' _ _ =>
      exact Or.inl (.numeric hp (hmajor.trans hmajor'.symm) (hminor' ▸ hminor))
  | detailed hp hmajor hminor hletter hsuffixes =>
    cases hq with
    | numeric hq hmajor' hminor' =>
      exact Or.inr (.numeric hq (hmajor'.trans hmajor.symm) (hminor ▸ hminor'))
    | detailed hq hmajor' hminor' hletter' hsuffixes' =>
      rcases List.prefix_or_prefix_of_prefix hsuffixes hsuffixes' with h | h
      · exact Or.inl (.detailed hp (hmajor.trans hmajor'.symm) (hminor.trans hminor'.symm)
          (hletter.trans hletter'.symm) h)
      · exact Or.inr (.detailed hq (hmajor'.trans hmajor.symm) (hminor'.trans hminor.symm)
          (hletter'.trans hletter.symm) h)

/-- Beginnings depend on what is compared only. -/
theorem begins_congr {p q v w : Version} (hpq : p.key = q.key) (hvw : v.key = w.key) :
    p.Begins v ↔ q.Begins w :=
  ⟨fun h => (Begins.of_key_eq hpq.symm).trans (h.trans (.of_key_eq hvw)),
    fun h => (Begins.of_key_eq hpq).trans (h.trans (.of_key_eq hvw.symm))⟩

/-! ## Patterns -/

/-- A pattern with a revision is fitted by what is equal to it. -/
theorem fitsPattern_iff_key_eq {p v : Version} (h : p.revision.isNone = false) :
    v.fitsPattern p = true ↔ v.key = p.key := by
  rw [fitsPattern, h, if_neg Bool.false_ne_true, same_iff_key_eq]

/-- Of a version cut down to a pattern of numbers only as many numbers are left. -/
theorem key_cutTo_of_numeric {p : Version} (hp : p.isNumeric = true) (v : Version) :
    (v.cutTo p).key = (valueKey v.major.digits, v.minorKeys.take p.minorKeys.length, none,
      [absentKey], valueKey []) := by
  obtain ⟨major, minor, letter, suffixes, revision⟩ := p
  obtain ⟨rfl, rfl⟩ : suffixes = [] ∧ letter = none := by simpa [isNumeric] using hp
  rw [minorKeys, minorKeys, ← List.map_take, List.length_map]
  rfl

/-- Of a version cut down to a pattern with a letter or suffixes only as many suffixes are
left. -/
theorem key_cutTo_of_detailed {p : Version} (hp : p.isNumeric = false) (v : Version) :
    (v.cutTo p).key = (valueKey v.major.digits, v.minorKeys, letterKey v.letter,
      v.suffixKeys.take p.suffixKeys.length ++ [absentKey], valueKey []) := by
  have hcut : (p.suffixes.isEmpty && p.letter.isNone) = false := hp
  simp only [cutTo, hcut, Bool.false_eq_true, if_false, key, suffixesKey, suffixKeys,
    List.map_take, List.length_map]
  rfl

/-- A pattern without revision is fitted by what begins with it. -/
theorem fitsPattern_iff_begins {p v : Version} (h : p.revision.isNone = true) :
    v.fitsPattern p = true ↔ p.Begins v := by
  have hkey : p.key = (valueKey p.major.digits, p.minorKeys, letterKey p.letter,
      p.suffixKeys ++ [absentKey], valueKey []) := by
    rw [key, Option.isNone_iff_eq_none.1 h]
    rfl
  rw [fitsPattern, h, if_pos rfl, same_iff_key_eq, hkey, eq_comm]
  cases hp : p.isNumeric with
  | true =>
    obtain ⟨hsuffixes, hletter⟩ := isNumeric_iff.1 hp
    rw [key_cutTo_of_numeric hp, hsuffixes, hletter, begins_iff_of_numeric hp,
      List.prefix_iff_eq_take]
    simp
  | false =>
    rw [key_cutTo_of_detailed hp, begins_iff_of_detailed hp, List.prefix_iff_eq_take]
    simp

/-- What is equal to a pattern fits it. -/
theorem fitsPattern_of_same {v p : Version} (h : v.same p = true) : v.fitsPattern p = true := by
  have hkey := same_iff_key_eq.1 h
  cases hp : p.revision.isNone with
  | true => exact (fitsPattern_iff_begins hp).2 (.of_key_eq hkey.symm)
  | false => exact (fitsPattern_iff_key_eq hp).2 hkey

/-- Equal versions fit equal patterns alike, provided that neither or both of these have a
revision. -/
theorem fitsPattern_congr {v w p q : Version} (hvw : v.key = w.key) (hpq : p.key = q.key)
    (hrevision : p.revision.isNone = q.revision.isNone) : v.fitsPattern p = w.fitsPattern q := by
  rw [Bool.eq_iff_iff]
  cases hp : p.revision.isNone with
  | true =>
    rw [fitsPattern_iff_begins hp, fitsPattern_iff_begins (hrevision ▸ hp)]
    exact begins_congr hpq hvw
  | false =>
    rw [fitsPattern_iff_key_eq hp, fitsPattern_iff_key_eq (hrevision ▸ hp), hvw, hpq]

/-- A pattern that has a revision is not fitted by all that fits an equal one without. -/
theorem exists_fitsPattern_of_revised {p q : Version} (hkey : p.key = q.key)
    (hp : p.revision.isNone = true) (hq : q.revision.isNone = false) :
    ∃ v : Version, v.fitsPattern p = true ∧ v.fitsPattern q = false := by
  refine ⟨{ p with revision := some ⟨['1'], by decide, by decide⟩ }, ?_, ?_⟩
  · exact (fitsPattern_iff_begins hp).2 (begins_revised p _)
  · rw [← Bool.not_eq_true, fitsPattern_iff_key_eq hq, ← hkey]
    intro heq
    obtain ⟨_, _, _, _, hrevision⟩ := key_eq_iff.1 heq
    rw [Option.isNone_iff_eq_none.1 hp] at hrevision
    cases hrevision

/-- What fits a pattern also fits the patterns without revision that the pattern fits. -/
theorem fitsPattern_trans {v p q : Version} (hq : q.revision.isNone = true)
    (hvp : v.fitsPattern p = true) (hpq : p.fitsPattern q = true) : v.fitsPattern q = true := by
  have hbegins := (fitsPattern_iff_begins hq).1 hpq
  apply (fitsPattern_iff_begins hq).2
  cases hp : p.revision.isNone with
  | true => exact hbegins.trans ((fitsPattern_iff_begins hp).1 hvp)
  | false => exact hbegins.trans (.of_key_eq ((fitsPattern_iff_key_eq hp).1 hvp).symm)

/-- Of two patterns without revision that one version fits either fits the other. -/
theorem fitsPattern_total {v p q : Version} (hp : p.revision.isNone = true)
    (hq : q.revision.isNone = true) (hvp : v.fitsPattern p = true)
    (hvq : v.fitsPattern q = true) : p.fitsPattern q = true ∨ q.fitsPattern p = true := by
  rw [fitsPattern_iff_begins hp] at hvp ⊢
  rw [fitsPattern_iff_begins hq] at hvq ⊢
  exact (hvp.total hvq).symm

/-- Patterns form a hierarchy.  A version fits the patterns that it is equal to, and equal
versions fit the same patterns.  What fits a pattern fits the patterns without revision that the
pattern fits.  So of two patterns without revision that some version fits one fits the other, and
the versions that fit the former fit the latter. -/
theorem fitsPattern_hierarchy :
    (∀ v p : Version, v.same p = true → v.fitsPattern p = true) ∧
      (∀ v w p : Version, v.same w = true → v.fitsPattern p = w.fitsPattern p) ∧
      (∀ v p q : Version, q.revision = none → v.fitsPattern p = true → p.fitsPattern q = true →
        v.fitsPattern q = true) ∧
      (∀ v p q : Version, p.revision = none → q.revision = none → v.fitsPattern p = true →
        v.fitsPattern q = true → p.fitsPattern q = true ∨ q.fitsPattern p = true) ∧
      (∀ p q : Version, p.revision = none → q.revision = none →
        (∀ v : Version, v.fitsPattern p = true → v.fitsPattern q = true) ∨
        (∀ v : Version, v.fitsPattern q = true → v.fitsPattern p = true) ∨
        ∀ v : Version, ¬(v.fitsPattern p = true ∧ v.fitsPattern q = true)) := by
  refine ⟨fun v p => fitsPattern_of_same, ?_, ?_, ?_, ?_⟩
  · intro v w p h
    exact fitsPattern_congr (same_iff_key_eq.1 h) rfl rfl
  · intro v p q hq
    exact fitsPattern_trans (Option.isNone_iff_eq_none.2 hq)
  · intro v p q hp hq
    exact fitsPattern_total (Option.isNone_iff_eq_none.2 hp) (Option.isNone_iff_eq_none.2 hq)
  · intro p q hp hq
    rw [← Option.isNone_iff_eq_none] at hp hq
    by_cases hcommon : ∃ v : Version, v.fitsPattern p = true ∧ v.fitsPattern q = true
    · obtain ⟨v, hvp, hvq⟩ := hcommon
      rcases fitsPattern_total hp hq hvp hvq with hpq | hqp
      · exact Or.inl fun u hu => fitsPattern_trans hq hu hpq
      · exact Or.inr (Or.inl fun u hu => fitsPattern_trans hp hu hqp)
    · exact Or.inr (Or.inr (not_exists.1 hcommon))

/-- The number {lit}`0` and a later one, with what follows them. -/
def ofZeroPoint (minor : Numeral) (letter : Option VersionLetter) (suffixes : List Suffix)
    (revision : Option Numeral) : Version :=
  ⟨.zero, [minor], letter, suffixes, revision⟩

/-- The version {lit}`0.01b_rc-r2`, which is also spelled {lit}`0.010b_rc0-r2`, fits the pattern
{lit}`0.010b`, which fits {lit}`0.01`. -/
theorem fitsPattern_ofZeroPoint :
    let v := ofZeroPoint ⟨['0', '1'], by decide, by decide⟩ (some ⟨'b', by decide⟩)
      [⟨.rc, none⟩] (some ⟨['2'], by decide, by decide⟩)
    let w := ofZeroPoint ⟨['0', '1', '0'], by decide, by decide⟩ (some ⟨'b', by decide⟩)
      [⟨.rc, some .zero⟩] (some ⟨['2'], by decide, by decide⟩)
    let p := ofZeroPoint ⟨['0', '1', '0'], by decide, by decide⟩ (some ⟨'b', by decide⟩) [] none
    let q := ofZeroPoint ⟨['0', '1'], by decide, by decide⟩ none [] none
    v.same w = true ∧ v.fitsPattern w = true ∧ v.fitsPattern p = w.fitsPattern p ∧
      v.fitsPattern p = true ∧ p.fitsPattern q = true ∧ v.fitsPattern q = true ∧
      (q.fitsPattern p = true ∨ p.fitsPattern q = true) ∧
      p.revision = none ∧ q.revision = none ∧
      ((∀ u : Version, u.fitsPattern p = true → u.fitsPattern q = true) ∨
        (∀ u : Version, u.fitsPattern q = true → u.fitsPattern p = true) ∨
        ∀ u : Version, ¬(u.fitsPattern p = true ∧ u.fitsPattern q = true)) := by
  intro v w p q
  obtain ⟨hequal, hcongr, htrans, htotal, hnested⟩ := fitsPattern_hierarchy
  have hsame : v.same w = true := by decide
  have hvp : v.fitsPattern p = true := by decide
  have hpq : p.fitsPattern q = true := by decide
  have hvq : v.fitsPattern q = true := htrans v p q rfl hvp hpq
  exact ⟨hsame, hequal v w hsame, hcongr v w p hsame, hvp, hpq, hvq,
    htotal v q p rfl rfl hvq hvp, rfl, rfl, hnested p q rfl rfl⟩

end Version
end EbuildGraph
