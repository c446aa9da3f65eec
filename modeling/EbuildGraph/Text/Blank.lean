/-!
# Blank characters, words and lines

Two classes of blank characters occur in package metadata.  {lit}`isBlank` is
the Unicode property White_Space and separates words in values and list files;
{lit}`isLayout` is the four ASCII characters that grammars skip between tokens.

Main definitions:

- {lit}`words`: the maximal blank-free runs of a text, in order.
- {lit}`lines`: the lines of a text, without their terminators.
- {lit}`trim`, {lit}`trimEnd`: a text without blank characters at its ends.
-/

namespace EbuildGraph
namespace Text

/-- Whether a character has the Unicode property White_Space. -/
def isBlank (c : Char) : Bool :=
  let n := c.toNat
  (9 ≤ n && n ≤ 13) || n == 32 || n == 0x85 || n == 0xA0 || n == 0x1680 ||
    (0x2000 ≤ n && n ≤ 0x200A) || n == 0x2028 || n == 0x2029 || n == 0x202F ||
    n == 0x205F || n == 0x3000

/-- The layout characters of a grammar: space, tab, line feed and carriage return. -/
def isLayout (c : Char) : Bool :=
  c == ' ' || c == '\t' || c == '\n' || c == '\r'

/-- Every layout character is blank. -/
theorem isBlank_of_isLayout {c : Char} (h : isLayout c = true) : isBlank c = true := by
  simp only [isLayout, Bool.or_eq_true, beq_iff_eq] at h
  rcases h with ((h | h) | h) | h <;> subst h <;> decide

/-- Removes the longest run at the end whose characters all satisfy the test. -/
def dropEndWhile (p : Char → Bool) (cs : List Char) : List Char :=
  (cs.reverse.dropWhile p).reverse

/-- The text without blank characters at its end. -/
def trimEnd (s : String) : String :=
  String.ofList (dropEndWhile isBlank s.toList)

/-- The text without blank characters at either end. -/
def trim (s : String) : String :=
  String.ofList (dropEndWhile isBlank (s.toList.dropWhile isBlank))

/-- The maximal runs of characters that fail the test, in order. -/
def runs (p : Char → Bool) (cs : List Char) : List (List Char) :=
  (cs.splitOnP p).filter (fun w => !w.isEmpty)

/-- The blank-separated words of a text. -/
def words (s : String) : List String :=
  (runs isBlank s.toList).map String.ofList

/-- A line that ended in a line feed loses one carriage return before it. -/
def dropReturn (line : List Char) : List Char :=
  match line.reverse with
  | '\r' :: rest => rest.reverse
  | _ => line

/-- Ends the lines of a text split at its line feeds: an empty last piece is no line. -/
def endLines : List (List Char) → List (List Char)
  | [] => []
  | [last] => if last.isEmpty then [] else [last]
  | line :: rest => dropReturn line :: endLines rest

/-- The lines of a text.  A line feed ends a line and takes one carriage return
before it along; the last line may lack it. -/
def lines (s : String) : List String :=
  (endLines (s.toList.splitOn '\n')).map String.ofList

end Text
end EbuildGraph
