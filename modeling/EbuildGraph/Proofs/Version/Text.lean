import EbuildGraph.Proofs.Success
import EbuildGraph.Version.Parser
import Mathlib.Data.List.Basic

/-!
# Versions as they are written

Splitting a version off the end of a text loses nothing: each part that is split off is
written as it was found, so what precedes the version and the version make up the text.

Main results:

- Theorem {lit}`append_text_of_splitVersion`: a text is what precedes its version and then
  the version as it is written.
- Theorem {lit}`isVersionChar_of_mem_text`: the characters of a version.
- Theorem {lit}`text_of_parse`: a version that was read is written as it was read.
-/

namespace EbuildGraph
namespace Version

/-! ## Digits -/

theorem append_splitDigits (cs : List Char) :
    (splitDigits cs).1 ++ (splitDigits cs).2 = cs := by
  rw [splitDigits, Text.dropEndWhile, ← List.reverse_append, List.takeWhile_append_dropWhile,
    List.reverse_reverse]

theorem isDigit_of_mem_splitDigits {cs : List Char} {c : Char} (h : c ∈ (splitDigits cs).2) :
    c.isDigit = true :=
  List.all_eq_true.1 List.all_takeWhile c (List.mem_reverse.1 h)

/-- Digits, if there are any, are written as the numeral that they spell. -/
theorem optionalDigits_ofChars? {cs : List Char} (h : ∀ c ∈ cs, c.isDigit = true) :
    optionalDigits (Numeral.ofChars? cs) = cs := by
  by_cases hcs : cs = []
  · rw [hcs]
    rfl
  · rw [Numeral.ofChars?, dif_pos ⟨hcs, List.all_eq_true.2 h⟩]
    rfl

theorem isDigit_of_mem_digits {n : Numeral} {c : Char} (h : c ∈ n.digits) : c.isDigit = true :=
  List.all_eq_true.1 n.decimal c h

theorem isDigit_of_mem_optionalDigits {number : Option Numeral} {c : Char}
    (h : c ∈ optionalDigits number) : c.isDigit = true := by
  cases number with
  | none => exact absurd h List.not_mem_nil
  | some n => exact isDigit_of_mem_digits h

/-! ## Revision, suffixes and letter -/

/-- A revision as it is written. -/
def revisionChars (revision : Option Numeral) : List Char :=
  match revision with
  | some n => '-' :: 'r' :: n.digits
  | none => []

theorem append_splitRevision (cs : List Char) :
    (splitRevision cs).1 ++ revisionChars (splitRevision cs).2 = cs := by
  unfold splitRevision
  split
  next head digits hdigits =>
  split
  · next number rest hnumber hrest =>
    have hall := append_splitDigits cs
    rw [hdigits] at hall
    rw [← hall, ← List.append_eq_of_isSuffixOf?_eq_some hrest]
    simp [revisionChars, Numeral.digits_of_ofChars? hnumber]
  · exact List.append_nil cs

theorem append_splitSuffix {cs rest : List Char} {s : Suffix}
    (h : splitSuffix? cs = some (rest, s)) : rest ++ s.text.toList = cs := by
  obtain ⟨label, _, hlabel⟩ := List.exists_of_findSome?_eq_some h
  obtain ⟨start, hstart, heq⟩ := Option.map_eq_some_iff.1 hlabel
  cases heq
  have hdigits : optionalDigits (Numeral.ofChars? (splitDigits cs).2) = (splitDigits cs).2 :=
    optionalDigits_ofChars? fun _ => isDigit_of_mem_splitDigits
  have hhead : rest ++ label.text.toList = (splitDigits cs).1 :=
    List.append_eq_of_isSuffixOf?_eq_some hstart
  calc
    rest ++ (Suffix.text ⟨label, Numeral.ofChars? (splitDigits cs).2⟩).toList =
        (rest ++ label.text.toList) ++ (splitDigits cs).2 := by
      rw [Suffix.text, String.toList_append, String.toList_ofList, hdigits, List.append_assoc]
    _ = cs := by rw [hhead, append_splitDigits]

/-- Suffixes as they are written, one after the other. -/
def suffixChars (suffixes : List Suffix) : List Char :=
  suffixes.flatMap fun s => s.text.toList

theorem append_splitSuffixesUpTo (n : Nat) (cs : List Char) :
    (splitSuffixesUpTo n cs).1 ++ suffixChars (splitSuffixesUpTo n cs).2 = cs := by
  induction n generalizing cs with
  | zero => exact List.append_nil cs
  | succ n ih =>
    rw [splitSuffixesUpTo]
    split
    · exact List.append_nil cs
    · next head suffix hsuffix =>
      have hhead := append_splitSuffix hsuffix
      rw [← ih head] at hhead
      simpa [suffixChars] using hhead

/-- A letter as it is written. -/
def letterChars (letter : Option VersionLetter) : List Char :=
  (letter.map Subtype.val).toList

theorem append_splitLetter (cs : List Char) :
    (splitLetter cs).1 ++ letterChars (splitLetter cs).2 = cs := by
  unfold splitLetter
  split
  · exact List.append_nil cs
  · next c hlast =>
    split
    · exact List.dropLast_append_getLast? c hlast
    · exact List.append_nil cs

/-! ## Numbers -/

/-- Numbers as they are written, with dots between them. -/
def numberChars (numbers : List Numeral) : List Char :=
  ['.'].intercalate (numbers.map Numeral.digits)

theorem digits_of_mapM_ofChars? {parts : List (List Char)} {numbers : List Numeral}
    (h : parts.mapM Numeral.ofChars? = some numbers) : numbers.map Numeral.digits = parts := by
  induction parts generalizing numbers with
  | nil =>
    cases h
    rfl
  | cons part parts ih =>
    rw [List.mapM_cons] at h
    obtain ⟨first, hfirst, hrest⟩ := Option.bind_eq_some_iff.1 h
    obtain ⟨others, hothers, heq⟩ := Option.bind_eq_some_iff.1 hrest
    cases heq
    rw [List.map_cons, Numeral.digits_of_ofChars? hfirst, ih hothers]

theorem numberChars_of_numerals? {cs : List Char} {numbers : List Numeral}
    (h : numerals? cs = some numbers) : numberChars numbers = cs := by
  rw [numberChars, digits_of_mapM_ofChars? h, List.intercalate_splitOn]

theorem append_splitNumbers {cs start : List Char} {numbers : List Numeral}
    (h : splitNumbers? cs = some (start, numbers)) : start ++ numberChars numbers = cs := by
  induction cs generalizing start with
  | nil => cases h
  | cons c cs ih =>
    rw [splitNumbers?] at h
    split at h
    · next found hfound =>
      cases h
      exact numberChars_of_numerals? hfound
    · obtain ⟨parts, hparts, heq⟩ := Option.map_eq_some_iff.1 h
      cases heq
      rw [List.cons_append, ih hparts]

/-! ## The whole version -/

theorem toList_text (v : Version) :
    v.text.toList = numberChars v.numbers ++ letterChars v.letter ++ suffixChars v.suffixes ++
      revisionChars v.revision := by
  have hnumbers : (v.numbers.map Numeral.text).map String.toList =
      v.numbers.map Numeral.digits := by
    rw [List.map_map]
    exact List.map_congr_left fun n _ => String.toList_ofList
  have hsuffixes : (v.suffixes.map Suffix.text).flatMap String.toList = suffixChars v.suffixes :=
    List.flatMap_map ..
  rw [text, String.toList_append, String.toList_append, String.toList_append,
    String.toList_intercalate, String.toList_join, hnumbers, hsuffixes]
  congr 1
  · congr 2
    cases v.letter <;> simp [letterChars]
  · cases v.revision <;> simp [revisionChars, Numeral.text]

/-- A text is what precedes its version and then the version as it is written. -/
theorem append_text_of_splitVersion {cs start : List Char} {v : Version}
    (h : splitVersion? cs = some (start, v)) : start ++ v.text.toList = cs := by
  have hrevision := append_splitRevision cs
  rcases hr : splitRevision cs with ⟨beforeRevision, revision⟩
  have hsuffixes := append_splitSuffixesUpTo beforeRevision.length beforeRevision
  rcases hs : splitSuffixesUpTo beforeRevision.length beforeRevision with
    ⟨beforeSuffixes, suffixes⟩
  have hletter := append_splitLetter beforeSuffixes
  rcases hl : splitLetter beforeSuffixes with ⟨beforeLetter, letter⟩
  rw [hr] at hrevision
  rw [hs] at hsuffixes
  rw [hl] at hletter
  simp only [splitVersion?, hr, splitSuffixes, hs, hl] at h
  split at h
  · next first major minor hnumbers =>
    cases h
    have hstart := append_splitNumbers hnumbers
    rw [toList_text, ← hrevision, ← hsuffixes, ← hletter, ← hstart]
    simp [numbers]
  · cases h

/-! ## Characters -/

theorem mem_numberChars {numbers : List Numeral} {c : Char} (h : c ∈ numberChars numbers) :
    c = '.' ∨ c.isDigit = true := by
  induction numbers with
  | nil => exact absurd h List.not_mem_nil
  | cons n rest ih =>
    cases rest with
    | nil => exact Or.inr (isDigit_of_mem_digits (by simpa [numberChars] using h))
    | cons m rest =>
      have hsplit : numberChars (n :: m :: rest) = n.digits ++ '.' :: numberChars (m :: rest) := by
        simp [numberChars]
      rw [hsplit] at h
      rcases List.mem_append.1 h with hmem | hmem
      · exact Or.inr (isDigit_of_mem_digits hmem)
      rcases List.mem_cons.1 hmem with rfl | hmem
      · exact Or.inl rfl
      · exact ih hmem

/-- Whether a character may stand in a version. -/
def isVersionChar (c : Char) : Bool :=
  c.isDigit || c.isLower || c == '.' || c == '_' || c == '-'

theorem isVersionChar_of_isDigit {c : Char} (h : c.isDigit = true) : isVersionChar c = true := by
  simp [isVersionChar, h]

theorem isVersionChar_of_mem_suffix {s : Suffix} {c : Char} (h : c ∈ s.text.toList) :
    isVersionChar c = true := by
  have hlabel : s.label.text.toList.all isVersionChar = true := by
    cases s.label <;> decide
  rw [Suffix.text, String.toList_append, String.toList_ofList] at h
  rcases List.mem_append.1 h with h | h
  · exact List.all_eq_true.1 hlabel c h
  · exact isVersionChar_of_isDigit (isDigit_of_mem_optionalDigits h)

theorem isVersionChar_of_mem_text {v : Version} {c : Char} (h : c ∈ v.text.toList) :
    isVersionChar c = true := by
  rw [toList_text, List.mem_append, List.mem_append, List.mem_append] at h
  rcases h with ((h | h) | h) | h
  · rcases mem_numberChars h with rfl | hdigit
    · decide
    · exact isVersionChar_of_isDigit hdigit
  · rcases hletter : v.letter with _ | ⟨d, hd⟩
    · simp [hletter, letterChars] at h
    · obtain rfl : c = d := by simpa [hletter, letterChars] using h
      simp [isVersionChar, hd]
  · obtain ⟨s, _, hs⟩ := List.mem_flatMap.1 h
    exact isVersionChar_of_mem_suffix hs
  · rcases hrevision : v.revision with _ | n
    · simp [hrevision, revisionChars] at h
    · rw [hrevision, revisionChars, List.mem_cons, List.mem_cons] at h
      rcases h with rfl | rfl | h
      · decide
      · decide
      · exact isVersionChar_of_isDigit (isDigit_of_mem_digits h)

theorem not_mem_text {c : Char} (hc : isVersionChar c = false) (v : Version) :
    c ∉ v.text.toList := by
  intro hmem
  rw [isVersionChar_of_mem_text hmem] at hc
  cases hc

/-- A version can be part of a file name. -/
theorem slash_not_mem_text (v : Version) : '/' ∉ v.text.toList :=
  not_mem_text (by decide) v

/-! ## Texts -/

/-- A text is what precedes its version and then the version as it is written. -/
theorem append_text_of_splitTrailing {s start : String} {v : Version}
    (h : splitTrailing s = .ok (start, v)) : start ++ v.text = s := by
  unfold splitTrailing at h
  split at h
  · next front version hsplit =>
    cases h
    rw [← String.toList_inj, String.toList_append, String.toList_ofList]
    exact append_text_of_splitVersion hsplit
  · cases h

/-- A version that was read is written as it was read. -/
theorem text_of_parse {s : String} {v : Version} (h : parse s = .ok v) : v.text = s := by
  unfold parse at h
  split at h
  · cases h
  next start version hsplit =>
  split at h
  · next hempty =>
    cases h
    have htext := append_text_of_splitTrailing hsplit
    rw [String.isEmpty_iff.1 hempty, String.empty_append] at htext
    exact htext
  · cases h

end Version
end EbuildGraph
