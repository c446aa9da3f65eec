import EbuildGraph.Version.Basic

/-!
# The order of versions

Versions are compared number by number, then by letter, by suffixes and by
revision.  The first number and every revision compare by value.  A later number
compares by value too, unless one of the two starts with a zero: then both are
read as decimal fractions, so their trailing zeros do not count.

Main definitions:

- {lit}`Version.compare`: the order.
- {lit}`Version.fitsPattern`: the versions that a pattern with a trailing star admits.
-/

namespace EbuildGraph

/-- The order of two texts by code points. -/
def compareChars (a b : List Char) : Ordering :=
  List.compareLex compare a b

/-- The order of two digit sequences by value. -/
def compareByValue (a b : List Char) : Ordering :=
  let a := a.dropWhile (· == '0')
  let b := b.dropWhile (· == '0')
  (compare a.length b.length).then (compareChars a b)

/-- A digit sequence without the zeros at its end. -/
def dropEndZeros (a : List Char) : List Char :=
  (a.reverse.dropWhile (· == '0')).reverse

/-- Whether a numeral starts with a zero. -/
def Numeral.startsWithZero (n : Numeral) : Bool :=
  n.digits.head? == some '0'

/-- The order of two numbers after the first. -/
def compareFraction (a b : Numeral) : Ordering :=
  if a.startsWithZero || b.startsWithZero then
    compareChars (dropEndZeros a.digits) (dropEndZeros b.digits)
  else compareByValue a.digits b.digits

/-- The order of two lists of later numbers; of two that agree the shorter is less. -/
def compareFractions : List Numeral → List Numeral → Ordering
  | [], [] => .eq
  | [], _ :: _ => .lt
  | _ :: _, [] => .gt
  | a :: as, b :: bs => (compareFraction a b).then (compareFractions as bs)

/-- The order of two optional letters; a missing letter is least. -/
def compareLetters : Option VersionLetter → Option VersionLetter → Ordering
  | none, none => .eq
  | none, some _ => .lt
  | some _, none => .gt
  | some a, some b => compare a.1 b.1

/-- The order of two suffixes: by label, then by number. -/
def Suffix.compare (a b : Suffix) : Ordering :=
  (Ord.compare a.label.rank b.label.rank).then
    (compareByValue (optionalDigits a.number) (optionalDigits b.number))

/-- The order of two lists of suffixes.  The first suffix without a counterpart
is compared with the missing one, and what follows it does not count. -/
def compareSuffixes : List Suffix → List Suffix → Ordering
  | [], [] => .eq
  | a :: _, [] => compare a.label.rank SuffixKind.absentRank
  | [], b :: _ => compare SuffixKind.absentRank b.label.rank
  | a :: as, b :: bs => (a.compare b).then (compareSuffixes as bs)

namespace Version

/-- The order of versions. -/
def compare (v w : Version) : Ordering :=
  (compareByValue v.major.digits w.major.digits).then <|
  (compareFractions v.minor w.minor).then <|
  (compareLetters v.letter w.letter).then <|
  (compareSuffixes v.suffixes w.suffixes).then <|
  compareByValue (optionalDigits v.revision) (optionalDigits w.revision)

instance : Ord Version := ⟨compare⟩

/-- Whether two versions are equal in the order, however they are spelled. -/
def same (v w : Version) : Bool :=
  v.compare w == .eq

/-- Cuts a version down to what a pattern without revision speaks about. -/
def cutTo (v pattern : Version) : Version :=
  let v := { v with
    revision := none
    suffixes := v.suffixes.take pattern.suffixes.length }
  if pattern.suffixes.isEmpty && pattern.letter.isNone then
    { v with letter := none, minor := v.minor.take pattern.minor.length }
  else v

/-- Whether a version fits a pattern.  A revision counts only if the pattern has
one, further suffixes never do, and letter and further numbers count only if the
pattern has a letter or a suffix. -/
def fitsPattern (v pattern : Version) : Bool :=
  (if pattern.revision.isNone then v.cutTo pattern else v).same pattern

end Version
end EbuildGraph
