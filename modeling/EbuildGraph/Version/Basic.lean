/-!
# Versions

A version such as {lit}`1.2.3b_rc1_p2-r4` keeps its numbers as they are spelled,
so that {lit}`1.010` and {lit}`1.01` print differently although they compare equal.

Main definitions:

- {lit}`Numeral`: a non-empty run of decimal digits.
- {lit}`Version`: numbers, letter, suffixes and revision.
- {lit}`Version.text`: how a version is written.
-/

namespace EbuildGraph

/-- A number as it is spelled: a non-empty run of decimal digits. -/
structure Numeral where
  digits : List Char
  nonempty : digits ≠ []
  decimal : digits.all Char.isDigit = true
deriving DecidableEq

namespace Numeral

/-- The numeral that a list of characters spells. -/
def ofChars? (cs : List Char) : Option Numeral :=
  if h : cs ≠ [] ∧ cs.all Char.isDigit = true then some ⟨cs, h.1, h.2⟩ else none

/-- The numeral {lit}`0`. -/
def zero : Numeral := ⟨['0'], by decide, by decide⟩

instance : Inhabited Numeral := ⟨zero⟩

/-- The spelling of a numeral. -/
def text (n : Numeral) : String :=
  String.ofList n.digits

/-- A numeral is read back from its digits. -/
@[simp]
theorem ofChars?_digits (n : Numeral) : ofChars? n.digits = some n := by
  obtain ⟨digits, nonempty, decimal⟩ := n
  simp only [ofChars?]
  rw [dif_pos ⟨nonempty, decimal⟩]

theorem digits_of_ofChars? {cs : List Char} {n : Numeral} (h : ofChars? cs = some n) :
    n.digits = cs := by
  unfold ofChars? at h
  split at h
  · cases h
    rfl
  · cases h

end Numeral

/-- The word that starts a version suffix. -/
inductive SuffixKind where
  | alpha
  | beta
  | pre
  | rc
  | p
deriving DecidableEq, Repr

namespace SuffixKind

/-- Every label. -/
def all : List SuffixKind := [alpha, beta, pre, rc, p]

/-- The list of suffix kinds is complete. -/
theorem mem_all (label : SuffixKind) : label ∈ all := by
  cases label <;> simp [all]

/-- A label as it is written. -/
def text : SuffixKind → String
  | alpha => "_alpha"
  | beta => "_beta"
  | pre => "_pre"
  | rc => "_rc"
  | p => "_p"

/-- The place of a label in the order of suffixes. -/
def rank : SuffixKind → Nat
  | alpha => 1
  | beta => 2
  | pre => 3
  | rc => 4
  | p => 6

/-- The place of a missing suffix: after {lit}`_rc` and before {lit}`_p`. -/
def absentRank : Nat := 5

/-- No suffix ranks as a missing one does. -/
theorem rank_ne_absentRank (label : SuffixKind) : label.rank ≠ absentRank := by
  cases label <;> decide

end SuffixKind

/-- One suffix of a version, with its number if it has one. -/
structure Suffix where
  label : SuffixKind
  number : Option Numeral
deriving DecidableEq

/-- The digits of an optional numeral. -/
def optionalDigits (number : Option Numeral) : List Char :=
  match number with
  | some n => n.digits
  | none => []

/-- A suffix as it is written. -/
def Suffix.text (s : Suffix) : String :=
  s.label.text ++ String.ofList (optionalDigits s.number)

/-- A lower-case letter of the Latin alphabet. -/
abbrev VersionLetter := { c : Char // c.isLower = true }

/-- A package version.  Equality of this type is equality of spelling. -/
structure Version where
  major : Numeral
  minor : List Numeral
  letter : Option VersionLetter
  suffixes : List Suffix
  revision : Option Numeral
deriving DecidableEq

namespace Version

instance : Inhabited Version := ⟨⟨.zero, [], none, [], none⟩⟩

/-- All numbers of a version. -/
def numbers (v : Version) : List Numeral :=
  v.major :: v.minor

/-- A version as it is written. -/
def text (v : Version) : String :=
  String.intercalate "." (v.numbers.map Numeral.text) ++
    (match v.letter with
      | some c => String.singleton c.1
      | none => "") ++
    String.join (v.suffixes.map Suffix.text) ++
    (match v.revision with
      | some n => "-r" ++ n.text
      | none => "")

/-- The version without its revision. -/
def withoutRevision (v : Version) : Version :=
  { v with revision := none }

/-- The version {lit}`0`. -/
def zero : Version := default

end Version
end EbuildGraph
