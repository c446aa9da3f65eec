import EbuildGraph.Proofs.Grammar
import EbuildGraph.Proofs.Success
import EbuildGraph.Script.Parser

/-!
# Repeated rules of scripts

Parts, words, assignments and arguments are read for as long as there are any, at most as often
as the text has characters.  Each of them takes at least one character off the front, so the
bound is never reached: a repetition ends only where its rule does not apply.

Main definitions:

- {lit}`Shrinks`: whether a rule takes at least one character off the front.
- {lit}`repeatUpTo`: a rule applied a bounded number of times.
- {lit}`Repeats`: what a rule reads until it does not apply.

Main results:

- Theorem {lit}`repeatUpTo_eq_found_iff`: the length of a text is bound enough.
- Theorems {lit}`readParts_eq_found_iff`, {lit}`readWords_eq_found_iff`,
  {lit}`readAssignmentsUpTo_eq_found_iff` and {lit}`readArgumentsUpTo_eq_found_iff`: what the
  repetitions of scripts read.
- Theorem {lit}`readStatement_shrinks`: a statement takes at least one character.
-/

namespace EbuildGraph
namespace Script

variable {α : Type}

/-- Whether a rule takes at least one character off the front of a text. -/
def Shrinks (rule : List Char → Reading α) : Prop :=
  ∀ ⦃cs : List Char⦄ ⦃a : α⦄ ⦃rest : List Char⦄,
    rule cs = .found a rest → rest <:+ cs ∧ rest.length < cs.length

/-! ## Repetition -/

/-- Applies a rule up to the given number of times. -/
def repeatUpTo (rule : List Char → Reading α) : Nat → List Char → Reading (List α)
  | 0, cs => .found [] cs
  | n + 1, cs =>
    match rule cs with
    | .found a rest => (repeatUpTo rule n rest).map (a :: ·)
    | .absent => .found [] cs
    | .broken fault rest => .broken fault rest

/-- What a rule reads, time after time, until it does not apply. -/
inductive Repeats (rule : List Char → Reading α) : List Char → List α → List Char → Prop where
  | stop {cs : List Char} : rule cs = .absent → Repeats rule cs [] cs
  | next {cs mid rest : List Char} {a : α} {others : List α} :
      rule cs = .found a mid → Repeats rule mid others rest → Repeats rule cs (a :: others) rest

theorem Repeats.suffix {rule : List Char → Reading α} (hrule : Shrinks rule) {cs rest : List Char}
    {found : List α} (h : Repeats rule cs found rest) : rest <:+ cs := by
  induction h with
  | stop _ => exact List.suffix_refl _
  | next hfirst _ ih => exact ih.trans (hrule hfirst).1

/-- The length of a text is bound enough for a rule that shrinks it. -/
theorem repeatUpTo_eq_found_iff {rule : List Char → Reading α} (hrule : Shrinks rule) {n : Nat}
    {cs rest : List Char} {found : List α} (hn : cs.length < n) :
    repeatUpTo rule n cs = .found found rest ↔ Repeats rule cs found rest := by
  induction n generalizing cs found with
  | zero => omega
  | succ n ih =>
    rw [repeatUpTo]
    cases hfirst : rule cs with
    | found a mid =>
      have hshort := (hrule hfirst).2
      simp only [Outcome.map_eq_found_iff]
      constructor
      · rintro ⟨others, hothers, rfl⟩
        exact .next hfirst ((ih (by omega)).1 hothers)
      · intro h
        cases h with
        | stop habsent => simp [hfirst] at habsent
        | next hsame hothers =>
          obtain ⟨rfl, rfl⟩ : a = _ ∧ mid = _ := by simpa [hfirst] using hsame
          exact ⟨_, (ih (by omega)).2 hothers, rfl⟩
    | absent =>
      constructor
      · rintro ⟨⟩
        exact .stop hfirst
      · intro h
        cases h with
        | stop _ => rfl
        | next hsame _ => simp [hfirst] at hsame
    | broken fault mid =>
      constructor
      · rintro ⟨⟩
      · intro h
        cases h with
        | stop hsame => simp [hfirst] at hsame
        | next hsame _ => simp [hfirst] at hsame

theorem readPartsUpTo_eq (part : List Char → Reading Word) (n : Nat) (cs : List Char) :
    readPartsUpTo part n cs = (repeatUpTo part n cs).map List.flatten := by
  induction n generalizing cs with
  | zero => rfl
  | succ n ih =>
    rw [readPartsUpTo, repeatUpTo]
    cases hfirst : part cs with
    | found pieces mid =>
      simp only [ih]
      cases repeatUpTo part n mid <;> rfl
    | absent => rfl
    | broken fault mid => rfl

theorem readParts_eq_found_iff {part : List Char → Reading Word} (hpart : Shrinks part)
    {cs rest : List Char} {word : Word} :
    readParts part cs = .found word rest ↔
      ∃ parts, Repeats part cs parts rest ∧ parts.flatten = word := by
  rw [readParts, readPartsUpTo_eq, Outcome.map_eq_found_iff]
  simp only [repeatUpTo_eq_found_iff hpart (Nat.lt_succ_self cs.length)]

theorem readParts_suffix {part : List Char → Reading Word} (hpart : Shrinks part)
    {cs rest : List Char} {word : Word} (h : readParts part cs = .found word rest) :
    rest <:+ cs := by
  obtain ⟨parts, hparts, -⟩ := (readParts_eq_found_iff hpart).1 h
  exact hparts.suffix hpart

/-! ## Names and words -/

/-- What is left behind a first character is shorter. -/
theorem shrinks_cons {c : Char} {others rest : List Char} (h : rest <:+ others) :
    rest <:+ c :: others ∧ rest.length < (c :: others).length :=
  ⟨h.trans (List.suffix_cons c others), Nat.lt_succ_of_le h.length_le⟩

theorem splitName?_shrinks {cs rest : List Char} {name : String}
    (h : splitName? cs = some (name, rest)) : rest <:+ cs ∧ rest.length < cs.length := by
  cases cs with
  | nil => cases h
  | cons c others =>
    rw [splitName?] at h
    split at h
    · cases h
      exact shrinks_cons (List.dropWhile_suffix isNameChar)
    · cases h

theorem readExpansion_shrinks : Shrinks readExpansion := by
  intro cs piece rest h
  unfold readExpansion at h
  split at h
  · split at h
    · next hname =>
      cases h
      exact shrinks_cons ((List.suffix_cons _ _).trans (splitName?_shrinks hname).1)
    · cases h
  · split at h
    · next hname =>
      cases h
      exact splitName?_shrinks hname
    · cases h

theorem readSingleQuoted_shrinks : Shrinks readSingleQuoted := by
  intro cs word rest h
  unfold readSingleQuoted at h
  have hdrop := List.dropWhile_suffix (· != '\'') (l := cs)
  split at h
  · next hquote =>
    cases h
    rw [hquote] at hdrop
    exact ⟨(List.suffix_cons _ _).trans hdrop, hdrop.length_le⟩
  · cases h

theorem readQuotedPart_shrinks : Shrinks readQuotedPart := by
  intro cs word rest h
  unfold readQuotedPart at h
  split at h
  · cases h
  · cases h
  · obtain ⟨piece, hpiece, -⟩ := Outcome.map_eq_found_iff.1 h
    exact shrinks_cons (readExpansion_shrinks hpiece).1
  · cases h
  · cases h
    exact shrinks_cons (List.suffix_cons _ _)
  · cases h
  · cases h
    exact shrinks_cons (List.suffix_refl _)

theorem readDoubleQuoted_shrinks : Shrinks readDoubleQuoted := by
  intro cs word rest h
  obtain ⟨inner, mid, hinner, hclose⟩ :=
    Outcome.andThen_eq_found_iff.1 (Outcome.mapFault_eq_found_iff.1 h)
  have hmid := readParts_suffix readQuotedPart_shrinks hinner
  split at hclose
  · cases hclose
    exact ⟨(List.suffix_cons _ _).trans hmid, hmid.length_le⟩
  · cases hclose

theorem readWordPart_shrinks : Shrinks readWordPart := by
  intro cs word rest h
  unfold readWordPart at h
  split at h
  · cases h
  · exact shrinks_cons (readSingleQuoted_shrinks h).1
  · exact shrinks_cons (readDoubleQuoted_shrinks h).1
  · obtain ⟨piece, hpiece, -⟩ := Outcome.map_eq_found_iff.1 h
    exact shrinks_cons (readExpansion_shrinks hpiece).1
  · cases h
  · cases h
    exact shrinks_cons (List.suffix_cons _ _)
  · cases h
  · split at h
    · cases h
      exact shrinks_cons (List.suffix_refl _)
    · cases h

theorem readWord_shrinks : Shrinks readWord := by
  intro cs word rest h
  obtain ⟨first, mid, hfirst, hothers⟩ := Outcome.andThen_eq_found_iff.1 h
  obtain ⟨others, hothers, -⟩ := Outcome.map_eq_found_iff.1 hothers
  have hmid := readParts_suffix readWordPart_shrinks hothers
  have hshort := readWordPart_shrinks hfirst
  exact ⟨hmid.trans hshort.1, Nat.lt_of_le_of_lt hmid.length_le hshort.2⟩

/-! ## Space between words -/

theorem skipSpace_suffix (cs : List Char) : skipSpace cs <:+ cs := by
  fun_induction skipSpace cs with
  | case1 => exact List.suffix_refl _
  | case2 rest ih => exact (ih.trans (List.suffix_cons _ _)).trans (List.suffix_cons _ _)
  | case3 c rest _ _ ih => exact ih.trans (List.suffix_cons _ _)
  | case4 c rest _ _ => exact List.suffix_refl _

theorem skipComments_suffix (isSeparator : Char → Bool) (inComment : Bool) (cs : List Char) :
    skipComments isSeparator inComment cs <:+ cs := by
  fun_induction skipComments isSeparator inComment cs with
  | case1 => exact List.suffix_refl _
  | case2 _ rest ih => exact (ih.trans (List.suffix_cons _ _)).trans (List.suffix_cons _ _)
  | case3 _ _ _ ih => exact ih.trans (List.suffix_cons _ _)
  | case4 _ _ _ _ ih => exact ih.trans (List.suffix_cons _ _)
  | case5 _ _ _ _ _ _ _ ih => exact ih.trans (List.suffix_cons _ _)
  | case6 => exact List.suffix_refl _

/-- A rule and the space behind what it reads. -/
def withSpace (rule : List Char → Reading α) (cs : List Char) : Reading α :=
  (rule cs).andThen fun a rest => .found a (skipSpace rest)

theorem withSpace_shrinks {rule : List Char → Reading α} (hrule : Shrinks rule) :
    Shrinks (withSpace rule) := by
  intro cs a rest h
  obtain ⟨_, mid, hmid, heq⟩ := Outcome.andThen_eq_found_iff.1 h
  cases heq
  have hspace := skipSpace_suffix mid
  have hshort := hrule hmid
  exact ⟨hspace.trans hshort.1, Nat.lt_of_le_of_lt hspace.length_le hshort.2⟩

/-! ## Words in a row -/

theorem readWord_skip_shrinks {skip : List Char → List Char} (hskip : ∀ cs, skip cs <:+ cs) :
    Shrinks fun cs => readWord (skip cs) := by
  intro cs word rest h
  have hshort := readWord_shrinks h
  exact ⟨hshort.1.trans (hskip cs), Nat.lt_of_lt_of_le hshort.2 (hskip cs).length_le⟩

theorem readWordsUpTo_eq (skip : List Char → List Char) (n : Nat) (cs : List Char) :
    readWordsUpTo skip n cs = repeatUpTo (fun cs => readWord (skip cs)) n cs := by
  induction n generalizing cs with
  | zero => rfl
  | succ n ih =>
    rw [readWordsUpTo, repeatUpTo]
    cases readWord (skip cs) with
    | found word rest => simp only [ih]
    | absent => rfl
    | broken fault rest => rfl

theorem readWords_eq_found_iff {skip : List Char → List Char} (hskip : ∀ cs, skip cs <:+ cs)
    {cs rest : List Char} {words : List Word} :
    readWords skip cs = .found words rest ↔
      Repeats (fun cs => readWord (skip cs)) cs words rest := by
  rw [readWords, readWordsUpTo_eq,
    repeatUpTo_eq_found_iff (readWord_skip_shrinks hskip) (Nat.lt_succ_self cs.length)]

theorem readArgumentsUpTo_eq (n : Nat) (cs : List Char) :
    readArgumentsUpTo n cs = repeatUpTo (withSpace readWord) n cs := by
  induction n generalizing cs with
  | zero => rfl
  | succ n ih =>
    rw [readArgumentsUpTo, repeatUpTo, withSpace]
    cases readWord cs with
    | found word rest => simp only [Outcome.andThen, ih]
    | absent => rfl
    | broken fault rest => rfl

theorem readArgumentsUpTo_eq_found_iff {n : Nat} {cs rest : List Char} {words : List Word}
    (hn : cs.length < n) :
    readArgumentsUpTo n cs = .found words rest ↔ Repeats (withSpace readWord) cs words rest := by
  rw [readArgumentsUpTo_eq, repeatUpTo_eq_found_iff (withSpace_shrinks readWord_shrinks) hn]

/-! ## Assignments -/

theorem skipArraySpace_suffix (cs : List Char) : skipArraySpace cs <:+ cs :=
  skipComments_suffix ..

theorem readArray_shrinks : Shrinks readArray := by
  intro cs value rest h
  unfold readArray at h
  split at h
  · next others =>
    obtain ⟨words, mid, hwords, hclose⟩ :=
      Outcome.andThen_eq_found_iff.1 (Outcome.mapFault_eq_found_iff.1 h)
    have hmid := ((readWords_eq_found_iff skipArraySpace_suffix).1 hwords).suffix
      (readWord_skip_shrinks skipArraySpace_suffix)
    have hspace := (skipArraySpace_suffix mid).trans hmid
    split at hclose
    · next hparenthesis =>
      cases hclose
      rw [hparenthesis] at hspace
      exact shrinks_cons ((List.suffix_cons _ _).trans hspace)
    · cases hclose
  · cases h

theorem readAssignment_shrinks : Shrinks readAssignment := by
  intro cs assignment rest h
  unfold readAssignment at h
  split at h
  · next name others hname =>
    have hshort := splitName?_shrinks hname
    obtain ⟨value, hvalue, -⟩ := Outcome.map_eq_found_iff.1 h
    have hrest : rest <:+ others := by
      rcases Outcome.orElse_eq_found_iff.1 hvalue with harray | ⟨-, hscalar⟩
      · exact (readArray_shrinks harray).1
      · obtain ⟨word, hword, -⟩ := Outcome.map_eq_found_iff.1 hscalar
        exact readParts_suffix readWordPart_shrinks hword
    have hbehind : rest <:+ '=' :: others ∧ rest.length < ('=' :: others).length :=
      shrinks_cons hrest
    exact ⟨hbehind.1.trans hshort.1, Nat.lt_trans hbehind.2 hshort.2⟩
  · cases h

theorem readAssignmentsUpTo_eq (n : Nat) (cs : List Char) :
    readAssignmentsUpTo n cs = repeatUpTo (withSpace readAssignment) n cs := by
  induction n generalizing cs with
  | zero => rfl
  | succ n ih =>
    rw [readAssignmentsUpTo, repeatUpTo, withSpace]
    cases readAssignment cs with
    | found assignment rest => simp only [Outcome.andThen, ih]
    | absent => rfl
    | broken fault rest => rfl

theorem readAssignmentsUpTo_eq_found_iff {n : Nat} {cs rest : List Char}
    {assignments : List (String × Value)} (hn : cs.length < n) :
    readAssignmentsUpTo n cs = .found assignments rest ↔
      Repeats (withSpace readAssignment) cs assignments rest := by
  rw [readAssignmentsUpTo_eq,
    repeatUpTo_eq_found_iff (withSpace_shrinks readAssignment_shrinks) hn]

/-- Assignments were read where there is one at least. -/
theorem readAssignments_eq_found_iff {cs rest : List Char} {command : Command} :
    readAssignments cs = .found command rest ↔
      ∃ first others, Repeats (withSpace readAssignment) cs (first :: others) rest ∧
        .assign (first :: others) = command := by
  simp only [← readAssignmentsUpTo_eq_found_iff (Nat.lt_succ_self cs.length)]
  unfold readAssignments
  cases readAssignmentsUpTo (cs.length + 1) cs with
  | found assignments mid =>
    cases assignments with
    | nil => simp
    | cons first others =>
      simp only [Outcome.map, Outcome.found.injEq, List.cons.injEq]
      constructor
      · rintro ⟨hcommand, hrest⟩
        exact ⟨first, others, ⟨⟨rfl, rfl⟩, hrest⟩, hcommand⟩
      · rintro ⟨_, _, ⟨⟨rfl, rfl⟩, hrest⟩, hcommand⟩
        exact ⟨hcommand, hrest⟩
  | absent => simp [Outcome.map]
  | broken fault mid => simp [Outcome.map]

/-! ## Statements -/

/-- A keyword stands in front of a space or a tab. -/
theorem afterKeyword?_eq_some_iff {keyword : String} {cs rest : List Char} :
    afterKeyword? keyword cs = some rest ↔
      ∃ c others, cs = keyword.toList ++ c :: others ∧ (c = ' ' ∨ c = '\t') ∧
        others.dropWhile (fun c => c == ' ' || c == '\t') = rest := by
  have hsplit := @List.isPrefixOf?_eq_some_iff_append_eq Char _ _ keyword.toList cs
  unfold afterKeyword?
  split
  · next c others hkeyword =>
    obtain rfl := hsplit.1 hkeyword
    split
    · next hc =>
      have hspace : c = ' ' ∨ c = '\t' := by simpa using hc
      simp [hspace]
    · next hc =>
      have hspace : ¬(c = ' ' ∨ c = '\t') := by simpa using hc
      simp [hspace]
  · next hnone =>
    simp only [reduceCtorEq, false_iff]
    rintro ⟨c, others, rfl, -⟩
    exact hnone c others (hsplit.2 rfl)

theorem afterKeyword?_shrinks {keyword : String} {cs rest : List Char}
    (h : afterKeyword? keyword cs = some rest) : rest <:+ cs ∧ rest.length < cs.length := by
  obtain ⟨c, others, rfl, -, rfl⟩ := afterKeyword?_eq_some_iff.1 h
  have hshort := shrinks_cons (c := c) (List.dropWhile_suffix
    (fun c => c == ' ' || c == '\t') (l := others))
  exact ⟨hshort.1.trans (List.suffix_append _ _), by simp at hshort ⊢; omega⟩

theorem readSource_shrinks : Shrinks readSource := by
  intro cs command rest h
  unfold readSource at h
  split at h
  · cases h
  · next hkeyword =>
    obtain ⟨word, hword, -⟩ := Outcome.map_eq_found_iff.1 (Outcome.mapFault_eq_found_iff.1 h)
    have hshort := readWord_shrinks (Outcome.required_eq_found_iff.1 hword)
    have hothers := afterKeyword?_shrinks hkeyword
    exact ⟨hshort.1.trans hothers.1, Nat.lt_trans hshort.2 hothers.2⟩

theorem readInherit_shrinks : Shrinks readInherit := by
  intro cs command rest h
  unfold readInherit at h
  split at h
  · cases h
  · next others hkeyword =>
    obtain ⟨words, hwords, -⟩ := Outcome.map_eq_found_iff.1 h
    have hrepeats := (readArgumentsUpTo_eq_found_iff (Nat.lt_succ_self others.length)).1 hwords
    have hrest := hrepeats.suffix (withSpace_shrinks readWord_shrinks)
    have hothers := afterKeyword?_shrinks hkeyword
    exact ⟨hrest.trans hothers.1, Nat.lt_of_le_of_lt hrest.length_le hothers.2⟩

theorem readAssignments_shrinks : Shrinks readAssignments := by
  intro cs command rest h
  obtain ⟨first, others, hread, -⟩ := readAssignments_eq_found_iff.1 h
  have hshrinks := withSpace_shrinks readAssignment_shrinks
  cases hread with
  | next hfirst hothers =>
    have hrest := hothers.suffix hshrinks
    have hshort := hshrinks hfirst
    exact ⟨hrest.trans hshort.1, Nat.lt_of_le_of_lt hrest.length_le hshort.2⟩

theorem readCommand_shrinks : Shrinks readCommand := by
  intro cs command rest h
  rcases Outcome.orElse_eq_found_iff.1 (Outcome.required_eq_found_iff.1 h) with h | ⟨-, h⟩
  · rcases Outcome.orElse_eq_found_iff.1 h with h | ⟨-, h⟩
    · exact readSource_shrinks h
    · exact readInherit_shrinks h
  · exact readAssignments_shrinks h

/-- What ends a statement. -/
def EndsStatement (cs : List Char) : Prop :=
  ∀ c ∈ cs.head?, c = '\n' ∨ c = ';' ∨ c = '#'

/-- A statement is a command, the space behind it, and an end. -/
theorem readStatement_eq_found_iff {cs rest : List Char} {command : Command} :
    readStatement cs = .found command rest ↔
      withSpace readCommand cs = .found command rest ∧ EndsStatement rest := by
  rw [readStatement, withSpace]
  cases readCommand cs with
  | found read mid =>
    simp only [Outcome.andThen, Outcome.found.injEq]
    split
    · next hmid =>
      simp only [Outcome.found.injEq]
      constructor
      · rintro ⟨hcommand, rfl⟩
        exact ⟨⟨hcommand, hmid⟩, by simp [EndsStatement]⟩
      · rintro ⟨⟨hcommand, hrest⟩, -⟩
        exact ⟨hcommand, hmid.symm.trans hrest⟩
    · next c others hmid =>
      split
      · next hc =>
        simp only [Outcome.found.injEq]
        constructor
        · rintro ⟨hcommand, rfl⟩
          refine ⟨⟨hcommand, hmid⟩, ?_⟩
          rintro d ⟨⟩
          simpa [or_assoc] using hc
        · rintro ⟨⟨hcommand, hrest⟩, -⟩
          exact ⟨hcommand, hmid.symm.trans hrest⟩
      · next hc =>
        simp only [reduceCtorEq, false_iff]
        rintro ⟨⟨-, hrest⟩, hend⟩
        have hends := hend c (by rw [← hrest, hmid]; rfl)
        exact hc (by simpa [or_assoc] using hends)
  | absent => simp [Outcome.andThen]
  | broken fault mid => simp [Outcome.andThen]

/-- A statement takes at least one character. -/
theorem readStatement_shrinks : Shrinks readStatement := by
  intro cs command rest h
  exact withSpace_shrinks readCommand_shrinks (readStatement_eq_found_iff.1 h).1

/-- The statements of a text from some place on, given the whole text. -/
inductive Parses (input : List Char) : List Char → List Statement → Prop where
  | done {cs : List Char} : skipSeparators cs = [] → Parses input cs []
  | next {cs start rest : List Char} {c : Char} {command : Command} {others : List Statement} :
      skipSeparators cs = c :: start → readStatement (c :: start) = .found command rest →
        Parses input rest others → Parses input cs (⟨lineOf input (c :: start), command⟩ :: others)

theorem parses_of_nil {input cs : List Char} {parsed : List Statement}
    (h : skipSeparators cs = []) : Parses input cs parsed ↔ [] = parsed := by
  constructor
  · intro hparses
    cases hparses with
    | done _ => rfl
    | next hstart _ _ => simp [h] at hstart
  · rintro rfl
    exact .done h

theorem parses_of_cons {input cs start : List Char} {c : Char} {parsed : List Statement}
    (h : skipSeparators cs = c :: start) :
    Parses input cs parsed ↔ ∃ command rest, readStatement (c :: start) = .found command rest ∧
      ∃ others, Parses input rest others ∧
        ⟨lineOf input (c :: start), command⟩ :: others = parsed := by
  constructor
  · intro hparses
    cases hparses with
    | done hdone => simp [h] at hdone
    | next hstart hread hothers =>
      obtain ⟨rfl, rfl⟩ := List.cons.inj (hstart.symm.trans h)
      exact ⟨_, _, hread, _, hothers, rfl⟩
  · rintro ⟨command, rest, hread, others, hothers, rfl⟩
    exact .next h hread hothers

/-- What is read does not depend on the separators in front. -/
theorem Parses.of_skipSeparators {input cs ds : List Char} {parsed : List Statement}
    (h : Parses input ds parsed) (hskip : skipSeparators cs = skipSeparators ds) :
    Parses input cs parsed := by
  cases h with
  | done hdone => exact .done (hskip.trans hdone)
  | next hstart hread hothers => exact .next (hskip.trans hstart) hread hothers

theorem skipSeparators_suffix (cs : List Char) : skipSeparators cs <:+ cs :=
  skipComments_suffix ..

/-- The length of a text is bound enough for its statements. -/
theorem statementsUpTo_eq_ok_iff {input : List Char} {n : Nat} {cs : List Char}
    {parsed : List Statement} (hn : cs.length < n) :
    statementsUpTo input n cs = .ok parsed ↔ Parses input cs parsed := by
  induction n generalizing cs parsed with
  | zero => omega
  | succ n ih =>
    have hlength := (skipSeparators_suffix cs).length_le
    cases hstart : skipSeparators cs with
    | nil => simp [statementsUpTo, hstart, parses_of_nil hstart]
    | cons c start =>
      rw [hstart] at hlength
      cases hread : readStatement (c :: start) with
      | found command rest =>
        have hshort := (readStatement_shrinks hread).2
        have hothers := fun others => @ih rest others (by omega)
        simp [statementsUpTo, hstart, parses_of_cons hstart, hread, map_eq_ok_iff, hothers]
      | absent => simp [statementsUpTo, hstart, parses_of_cons hstart, hread]
      | broken fault rest => simp [statementsUpTo, hstart, parses_of_cons hstart, hread]

/-- The statements of a script, without a bound. -/
theorem statements_eq_ok_iff {s : String} {parsed : List Statement} :
    statements s = .ok parsed ↔ Parses s.toList s.toList parsed :=
  statementsUpTo_eq_ok_iff (Nat.lt_succ_self _)

end Script
end EbuildGraph
