/-!
# Cutting texts at separators

Main definitions:

- {lit}`cut`: the parts before and after the first separator.
- {lit}`fields`: all parts between separators; there is always at least one.
- {lit}`dropStart?`, {lit}`dropEnd?`: the rest of a text that begins or ends
  with a given text.
-/

namespace EbuildGraph
namespace Text

/-- The characters before and after the first occurrence of the separator. -/
def cutChars (sep : Char) : List Char → Option (List Char × List Char)
  | [] => none
  | c :: rest =>
    if c = sep then some ([], rest)
    else (cutChars sep rest).map fun parts => (c :: parts.1, parts.2)

/-- A cut loses the separator and nothing else. -/
theorem eq_append_of_cutChars {sep : Char} {cs head tail : List Char}
    (h : cutChars sep cs = some (head, tail)) : cs = head ++ sep :: tail := by
  induction cs generalizing head with
  | nil => simp [cutChars] at h
  | cons c rest ih =>
    by_cases hc : c = sep
    · simp [cutChars, hc] at h
      obtain ⟨rfl, rfl⟩ := h
      simp [hc]
    · simp only [cutChars, hc, if_false, Option.map_eq_some_iff] at h
      obtain ⟨parts, hparts, heq⟩ := h
      cases heq
      simp [ih hparts]

/-- The parts of a text before and after the first occurrence of the separator. -/
def cut (sep : Char) (s : String) : Option (String × String) :=
  (cutChars sep s.toList).map fun parts => (String.ofList parts.1, String.ofList parts.2)

/-- All parts of a text between occurrences of the separator. -/
def fields (sep : Char) (s : String) : List String :=
  (s.toList.splitOn sep).map String.ofList

/-- The part of a text after the last occurrence of the separator, or all of it. -/
def afterLast (sep : Char) (s : String) : String :=
  String.ofList ((s.toList.reverse.takeWhile (· != sep)).reverse)

/-- What follows the given beginning. -/
def dropStart? (start s : String) : Option String :=
  (start.toList.isPrefixOf? s.toList).map String.ofList

/-- What precedes the given ending. -/
def dropEnd? (ending s : String) : Option String :=
  (ending.toList.isSuffixOf? s.toList).map String.ofList

/-- Groups a list into pairs; a last odd element is dropped. -/
def pairUp {α : Type} : List α → List (α × α)
  | a :: b :: rest => (a, b) :: pairUp rest
  | _ => []

/-- The texts joined with single spaces. -/
def unwords (parts : List String) : String :=
  String.intercalate " " parts

end Text
end EbuildGraph
