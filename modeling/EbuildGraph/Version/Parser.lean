import EbuildGraph.Error
import EbuildGraph.Text.Blank
import EbuildGraph.Version.Basic

/-!
# Reading versions

A version is read from the end of a text: first its revision, then its suffixes
and its letter, and last the longest sequence of numbers joined by dots that
reaches up to there.

Main definitions:

- {lit}`Version.splitTrailing`: splits a text into what precedes its version and the version.
- {lit}`Version.parse`: reads a text that is a version and nothing else.
-/

namespace EbuildGraph
namespace Version

/-- Splits the digits off the end of a text. -/
def splitDigits (cs : List Char) : List Char × List Char :=
  (Text.dropEndWhile Char.isDigit cs, (cs.reverse.takeWhile Char.isDigit).reverse)

/-- Splits a revision off the end of a text. -/
def splitRevision (cs : List Char) : List Char × Option Numeral :=
  let (head, digits) := splitDigits cs
  match Numeral.ofChars? digits, ['-', 'r'].isSuffixOf? head with
  | some number, some rest => (rest, some number)
  | _, _ => (cs, none)

/-- Splits one suffix off the end of a text. -/
def splitSuffix? (cs : List Char) : Option (List Char × Suffix) :=
  let (head, digits) := splitDigits cs
  SuffixKind.all.findSome? fun label =>
    (label.text.toList.isSuffixOf? head).map fun rest => (rest, ⟨label, Numeral.ofChars? digits⟩)

/-- Splits up to the given number of suffixes off the end of a text. -/
def splitSuffixesUpTo : Nat → List Char → List Char × List Suffix
  | 0, cs => (cs, [])
  | n + 1, cs =>
    match splitSuffix? cs with
    | none => (cs, [])
    | some (head, suffix) =>
      let (rest, suffixes) := splitSuffixesUpTo n head
      (rest, suffixes ++ [suffix])

/-- Splits all suffixes off the end of a text. -/
def splitSuffixes (cs : List Char) : List Char × List Suffix :=
  splitSuffixesUpTo cs.length cs

/-- Splits a letter off the end of a text. -/
def splitLetter (cs : List Char) : List Char × Option VersionLetter :=
  match cs.getLast? with
  | none => (cs, none)
  | some c => if h : c.isLower = true then (cs.dropLast, some ⟨c, h⟩) else (cs, none)

/-- The numerals of a text that consists of numerals joined by dots. -/
def numerals? (cs : List Char) : Option (List Numeral) :=
  (cs.splitOn '.').mapM Numeral.ofChars?

/-- Splits a text before the first place from which on it consists of numerals
joined by dots. -/
def splitNumbers? : List Char → Option (List Char × List Numeral)
  | [] => none
  | c :: cs =>
    match numerals? (c :: cs) with
    | some numbers => some ([], numbers)
    | none => (splitNumbers? cs).map fun parts => (c :: parts.1, parts.2)

/-- Splits characters into what precedes their version and the version. -/
def splitVersion? (cs : List Char) : Option (List Char × Version) :=
  let (cs, revision) := splitRevision cs
  let (cs, suffixes) := splitSuffixes cs
  let (cs, letter) := splitLetter cs
  match splitNumbers? cs with
  | some (start, major :: minor) => some (start, ⟨major, minor, letter, suffixes, revision⟩)
  | _ => none

/-- Splits a text into what precedes its version and the version. -/
def splitTrailing (s : String) : Except VersionFault (String × Version) :=
  match splitVersion? s.toList with
  | some (start, version) => .ok (String.ofList start, version)
  | none => .error (.missingNumber s)

/-- Reads a text that is a version and nothing else. -/
def parse (s : String) : Except VersionFault Version :=
  match splitTrailing s with
  | .error fault => .error fault
  | .ok (start, version) => if start.isEmpty then .ok version else .error (.excessStart s)

end Version
end EbuildGraph
