import Mathlib.Data.List.Basic

/-!
# Runs of characters of a class

A rule that takes characters of a class, as many as there are, stops in front of the first
character of another class and at the end.

Main results:

- Theorems {lit}`takeWhile_append_of_head` and {lit}`dropWhile_append_of_head`: a run of the
  class in front of another character.
- Theorems {lit}`takeWhile_append_of_dropWhile_ne_nil` and {lit}`dropWhile_append_of_ne_nil`: a
  run of the class that ends within a text.
-/

namespace EbuildGraph
namespace Text

variable {p : Char → Bool} {cs rest : List Char}

/-- A run of the class ends in front of a character of another class. -/
theorem takeWhile_append_of_head (hcs : ∀ c ∈ cs, p c = true)
    (hrest : ∀ c ∈ rest.head?, p c = false) : (cs ++ rest).takeWhile p = cs := by
  rw [List.takeWhile_append_of_pos hcs]
  cases rest with
  | nil => exact List.append_nil cs
  | cons c rest => rw [List.takeWhile_cons_of_neg (by simp [hrest c rfl]), List.append_nil]

/-- What follows a run of the class starts with a character of another class. -/
theorem dropWhile_append_of_head (hcs : ∀ c ∈ cs, p c = true)
    (hrest : ∀ c ∈ rest.head?, p c = false) : (cs ++ rest).dropWhile p = rest := by
  rw [List.dropWhile_append_of_pos hcs]
  cases rest with
  | nil => rfl
  | cons c rest => exact List.dropWhile_cons_of_neg (by simp [hrest c rfl])

/-- A run that ends within a text ends there with more text behind, too. -/
theorem takeWhile_append_of_dropWhile_ne_nil (hcs : cs.dropWhile p ≠ []) (more : List Char) :
    (cs ++ more).takeWhile p = cs.takeWhile p := by
  have hlength : (cs.takeWhile p).length ≠ cs.length := by
    have hall := congrArg List.length (List.takeWhile_append_dropWhile (p := p) (l := cs))
    have hpos := List.length_pos_iff.2 hcs
    rw [List.length_append] at hall
    omega
  rw [List.takeWhile_append, if_neg hlength]

theorem dropWhile_append_of_ne_nil (hcs : cs.dropWhile p ≠ []) (more : List Char) :
    (cs ++ more).dropWhile p = cs.dropWhile p ++ more := by
  simp [List.dropWhile_append, hcs]

end Text
end EbuildGraph
