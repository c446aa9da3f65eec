import EbuildGraph.Version.Order

/-!
# Versions are totally preordered

Each rule by which versions are compared is the order of some key.  Numbers compared by
value have as key the number of their digits without leading zeros, and then these digits.
A later number that starts with a zero is less than any that does not, so that the two ways
of reading later numbers do not contradict each other.  Suffixes have as key the list of
their labels and numbers, closed by the rank of the missing suffix.

Main results:

- Theorem {lit}`compare_eq_compare_key`: versions are compared by their keys.
- Instance of {lit}`Std.TransCmp` for {lit}`Version.compare`: the order is total, transitive
  and a version is equal to itself.
- Theorem {lit}`same_iff_key_eq`: versions are equal in the order when their keys are.
- Theorem {lit}`compare_isTotalPreorder`: the laws of the order, written out.
-/

namespace EbuildGraph

open Std

attribute [local instance] lexOrd

/-- Comparing by a key is transitive when keys are ordered. -/
theorem transCmp_of_key {α β : Type} [Ord β] [TransOrd β] {cmp : α → α → Ordering}
    (key : α → β) (h : ∀ a b, cmp a b = compare (key a) (key b)) : TransCmp cmp where
  eq_swap := by
    intro a b
    rw [h, h]
    exact OrientedOrd.eq_swap
  isLE_trans := by
    intro a b c hab hbc
    rw [h] at hab hbc ⊢
    exact TransOrd.isLE_trans hab hbc

/-- Pairs are compared by their first parts, and then by their second ones. -/
theorem compare_pair {α β : Type} [Ord α] [Ord β] (a b : α × β) :
    compare a b = (compare a.1 b.1).then (compare a.2 b.2) :=
  rfl

instance : TransCmp compareChars :=
  inferInstanceAs (TransCmp (List.compareLex compare))

/-! ## Numbers by value -/

/-- The digits of a number without leading zeros, after how many there are. -/
def valueKey (digits : List Char) : Nat × List Char :=
  ((digits.dropWhile (· == '0')).length, digits.dropWhile (· == '0'))

/-- Digits are compared by value as their keys are. -/
theorem compareByValue_eq (a b : List Char) :
    compareByValue a b = compare (valueKey a) (valueKey b) :=
  rfl

/-! ## Later numbers -/

/-- A later number as a decimal fraction if it starts with a zero, and else by value. -/
def Numeral.fractionKey (n : Numeral) : Nat × List Char :=
  if n.startsWithZero then (0, dropEndZeros n.digits) else (n.digits.length, n.digits)

theorem Numeral.dropWhile_zero_eq_self {n : Numeral} (h : n.startsWithZero = false) :
    n.digits.dropWhile (· == '0') = n.digits := by
  rcases hdigits : n.digits with _ | ⟨c, rest⟩
  · rfl
  · have hc : (c == '0') = false := by
      simpa [startsWithZero, hdigits] using h
    rw [List.dropWhile_cons_of_neg (by simp [hc])]

theorem dropEndZeros_cons {c : Char} (h : c ≠ '0') (rest : List Char) :
    dropEndZeros (c :: rest) = c :: dropEndZeros rest := by
  have hc : (c == '0') = false := by simpa using h
  rw [dropEndZeros, dropEndZeros, List.reverse_cons, List.dropWhile_append]
  by_cases hrest : (rest.reverse.dropWhile (· == '0')).isEmpty = true
  · rw [if_pos hrest, List.isEmpty_iff.1 hrest, List.dropWhile_cons_of_neg (by simp [hc])]
    rfl
  · rw [if_neg hrest, List.reverse_append]
    rfl

/-- What remains of a text without its last zeros is the start of that text. -/
theorem dropEndZeros_isPrefix (cs : List Char) : dropEndZeros cs <+: cs := by
  have hsuffix := List.dropWhile_suffix (l := cs.reverse) (· == '0')
  simpa [dropEndZeros] using List.reverse_prefix.2 hsuffix

/-- Decimal fractions that start with a zero come before those that do not. -/
theorem compareChars_dropEndZeros {a b : Numeral} (ha : a.startsWithZero = true)
    (hb : b.startsWithZero = false) :
    compareChars (dropEndZeros a.digits) (dropEndZeros b.digits) = .lt := by
  rcases hdigits : b.digits with _ | ⟨d, ds⟩
  · exact absurd hdigits b.nonempty
  have hd : d ≠ '0' := by
    simpa [Numeral.startsWithZero, hdigits] using hb
  have hdigit : '0' ≤ d := by
    have hall := List.all_eq_true.1 b.decimal d (by simp [hdigits])
    simp only [Char.isDigit, Bool.and_eq_true, decide_eq_true_eq] at hall
    exact hall.1
  rw [dropEndZeros_cons hd]
  rcases hcut : dropEndZeros a.digits with _ | ⟨c, cs⟩
  · rfl
  have hprefix := dropEndZeros_isPrefix a.digits
  rw [hcut] at hprefix
  have hc : c = '0' := by
    obtain ⟨tail, htail⟩ := hprefix
    rw [Numeral.startsWithZero, ← htail] at ha
    simpa using ha
  have hlt : compare c d = .lt := by
    rw [hc]
    simp [compare, compareOfLessAndEq, Std.lt_of_le_of_ne hdigit (Ne.symm hd)]
  rw [compareChars, List.compareLex_cons_cons, hlt]
  rfl

/-- Digits behind a leading zero are compared as their fraction keys are. -/
theorem compareFraction_eq (a b : Numeral) :
    compareFraction a b = compare a.fractionKey b.fractionKey := by
  have hlength : ∀ n : Numeral, 0 < n.digits.length := fun n =>
    List.length_pos_iff.2 n.nonempty
  unfold compareFraction Numeral.fractionKey
  rcases ha : a.startsWithZero with _ | _ <;> rcases hb : b.startsWithZero with _ | _
  · simp only [Bool.or_self, Bool.false_eq_true, if_false]
    rw [compareByValue_eq, valueKey, valueKey, Numeral.dropWhile_zero_eq_self ha,
      Numeral.dropWhile_zero_eq_self hb]
  · have hgt := OrientedCmp.gt_of_lt (compareChars_dropEndZeros hb ha)
    simp [hgt, compare_pair, Nat.compare_eq_gt.2 (hlength a)]
  · have hlt := compareChars_dropEndZeros ha hb
    simp [hlt, compare_pair, Nat.compare_eq_lt.2 (hlength b)]
  · simp [compare_pair, compareChars, List.compare_eq_compareLex]

/-- Lists are compared by the keys of their members, whatever the shorter list lacks. -/
theorem compareFractions_eq (as bs : List Numeral) :
    compareFractions as bs =
      compare (as.map Numeral.fractionKey) (bs.map Numeral.fractionKey) := by
  induction as generalizing bs with
  | nil =>
    cases bs with
    | nil => rfl
    | cons b bs => rfl
  | cons a as ih =>
    cases bs with
    | nil => rfl
    | cons b bs =>
      rw [compareFractions, compareFraction_eq, ih, List.map_cons, List.map_cons]
      exact (List.compareLex_cons_cons).symm

/-! ## Letters and suffixes -/

/-- The letter of a version as it is compared. -/
def letterKey (letter : Option VersionLetter) : Option Char :=
  letter.map Subtype.val

/-- Letters are compared as their keys are, and no letter comes before all of them. -/
theorem compareLetters_eq (a b : Option VersionLetter) :
    compareLetters a b = compare (letterKey a) (letterKey b) := by
  cases a <;> cases b <;> rfl

/-- The rank and the number of a suffix. -/
def Suffix.key (s : Suffix) : Nat × Nat × List Char :=
  (s.label.rank, valueKey (optionalDigits s.number))

/-- What stands for the first suffix that is missing. -/
def absentKey : Nat × Nat × List Char :=
  (SuffixKind.absentRank, valueKey [])

/-- The keys of suffixes, closed by that of the missing suffix. -/
def suffixesKey (suffixes : List Suffix) : List (Nat × Nat × List Char) :=
  suffixes.map Suffix.key ++ [absentKey]

/-- Suffixes are compared as their keys are. -/
theorem Suffix.compare_eq (a b : Suffix) : a.compare b = Ord.compare a.key b.key :=
  rfl

/-- A suffix never has the rank of the missing one, so the ranks decide. -/
theorem compare_key_absentKey (a : Suffix) (rest other : List (Nat × Nat × List Char)) :
    Ord.compare (a.key :: rest) (absentKey :: other) =
        Ord.compare a.label.rank SuffixKind.absentRank ∧
      Ord.compare (absentKey :: other) (a.key :: rest) =
        Ord.compare SuffixKind.absentRank a.label.rank := by
  have hfirst : ∀ o p q : Ordering, o ≠ .eq → (o.then p).then q = o := by
    intro o p q h
    cases o with
    | lt => rfl
    | eq => exact absurd rfl h
    | gt => rfl
  have hrank : Ord.compare a.label.rank SuffixKind.absentRank ≠ .eq := by
    simpa [Nat.compare_eq_eq] using SuffixKind.rank_ne_absentRank a.label
  have hrank' : Ord.compare SuffixKind.absentRank a.label.rank ≠ .eq :=
    fun heq => hrank (OrientedCmp.eq_symm heq)
  rw [List.compare_cons_cons, List.compare_cons_cons]
  exact ⟨hfirst _ _ _ hrank, hfirst _ _ _ hrank'⟩

/-- Lists of suffixes are compared as their keys are. -/
theorem compareSuffixes_eq (as bs : List Suffix) :
    compareSuffixes as bs = compare (suffixesKey as) (suffixesKey bs) := by
  induction as generalizing bs with
  | nil =>
    cases bs with
    | nil => decide
    | cons b bs => exact (compare_key_absentKey b _ _).2.symm
  | cons a as ih =>
    cases bs with
    | nil => exact (compare_key_absentKey a _ _).1.symm
    | cons b bs =>
      rw [compareSuffixes, Suffix.compare_eq, ih]
      exact (List.compareLex_cons_cons).symm

/-! ## Versions -/

namespace Version

/-- The parts of a version in the order in which they are compared. -/
def key (v : Version) :
    (Nat × List Char) × List (Nat × List Char) × Option Char × List (Nat × Nat × List Char) ×
      (Nat × List Char) :=
  (valueKey v.major.digits, v.minor.map Numeral.fractionKey, letterKey v.letter,
    suffixesKey v.suffixes, valueKey (optionalDigits v.revision))

/-- Versions are compared by their keys, part by part. -/
theorem compare_eq_compare_key (v w : Version) : v.compare w = Ord.compare v.key w.key := by
  rw [compare, compareFractions_eq, compareLetters_eq, compareSuffixes_eq]
  rfl

instance : TransCmp compare :=
  transCmp_of_key key compare_eq_compare_key

/-- Versions are equal in the order when their keys are. -/
theorem same_iff_key_eq {v w : Version} : v.same w = true ↔ v.key = w.key := by
  rw [same, beq_iff_eq, compare_eq_compare_key, Std.compare_eq_iff_eq]

/-- A version is equal to itself, the order can be read from either side, it is transitive,
and versions that are equal in it compare alike with every other. -/
theorem compare_isTotalPreorder (a b c : Version) :
    a.compare a = .eq ∧ b.compare a = (a.compare b).swap ∧
      ((a.compare b).isLE = true → (b.compare c).isLE = true → (a.compare c).isLE = true) ∧
      (a.compare b = .eq → a.compare c = b.compare c) :=
  ⟨ReflCmp.compare_self, OrientedCmp.eq_swap, TransCmp.isLE_trans, TransCmp.congr_left⟩

/-- The version {lit}`0` with a later number and suffixes. -/
def ofMinor (minor : Numeral) (suffixes : List Suffix) : Version :=
  { zero with minor := [minor], suffixes }

/-- Of {lit}`0.09`, {lit}`0.9` and {lit}`0.10` the first two are compared as fractions and the
last two by value.  The versions {lit}`0.0_p` and {lit}`0.00_p0` are equal and compare alike
with {lit}`0.0_rc`. -/
theorem compare_ofMinor :
    ((ofMinor ⟨['0', '9'], by decide, by decide⟩ []).compare
        (ofMinor ⟨['1', '0'], by decide, by decide⟩ [])).isLE = true ∧
      (ofMinor ⟨['0'], by decide, by decide⟩ [⟨.p, none⟩]).compare
          (ofMinor ⟨['0', '0'], by decide, by decide⟩ [⟨.p, some .zero⟩]) = .eq ∧
      (ofMinor ⟨['0'], by decide, by decide⟩ [⟨.p, none⟩]).compare
          (ofMinor ⟨['0'], by decide, by decide⟩ [⟨.rc, none⟩]) =
        (ofMinor ⟨['0', '0'], by decide, by decide⟩ [⟨.p, some .zero⟩]).compare
          (ofMinor ⟨['0'], by decide, by decide⟩ [⟨.rc, none⟩]) := by
  have hmixed := compare_isTotalPreorder (ofMinor ⟨['0', '9'], by decide, by decide⟩ [])
    (ofMinor ⟨['9'], by decide, by decide⟩ []) (ofMinor ⟨['1', '0'], by decide, by decide⟩ [])
  have hequal := compare_isTotalPreorder
    (ofMinor ⟨['0'], by decide, by decide⟩ [⟨.p, none⟩])
    (ofMinor ⟨['0', '0'], by decide, by decide⟩ [⟨.p, some .zero⟩])
    (ofMinor ⟨['0'], by decide, by decide⟩ [⟨.rc, none⟩])
  exact ⟨hmixed.2.2.1 (by decide) (by decide), by decide, hequal.2.2.2 (by decide)⟩

end Version
end EbuildGraph
