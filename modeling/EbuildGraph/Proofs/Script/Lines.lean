import EbuildGraph.Proofs.Script.LineEnds

/-!
# Statements of scripts that end a line

The statements of a text that ends a line stay what they are when more text is put behind it.
An array that is still open at the last line feed is open at the end of the text, which is a
failure, and every other rule of a statement ends with a line as its words do.  The statements of
the text behind follow those of the first, further down by the lines of the first.

Main results:

- Theorem {lit}`readStatement_append`: a statement is read alike with more text behind.
- Theorem {lit}`statements_append`: the statements of two texts one behind the other.
-/

namespace EbuildGraph
namespace Script

/-! ## Assignments -/

theorem readWords_ne_absent (skip : List Char → List Char) (cs : List Char) :
    readWords skip cs ≠ .absent := by
  rw [readWords, readWordsUpTo_eq]
  exact repeatUpTo_ne_absent _ _ _

/-- A word behind array space that reaches no end of the text. -/
theorem readWord_skipArraySpace_append {cs : List Char} (hcs : EndsLine cs)
    (hne : skipArraySpace cs ≠ []) (more : List Char) :
    Extends more (readWord (skipArraySpace cs)) (readWord (skipArraySpace (cs ++ more))) := by
  have hskip : skipArraySpace (cs ++ more) = skipArraySpace cs ++ more :=
    skipComments_append hcs hne more
  rw [hskip]
  exact readWord_isLocal (hcs.suffix (skipArraySpace_suffix cs) hne) more

/-- Words of an array are read alike with more text behind, if something stands behind them. -/
theorem readWords_skipArraySpace_append {cs rest : List Char} {words : List Word}
    (hcs : EndsLine cs) (h : readWords skipArraySpace cs = .found words rest)
    (hrest : skipArraySpace rest ≠ []) (more : List Char) :
    EndsLine rest ∧ readWords skipArraySpace (cs ++ more) = .found words (rest ++ more) := by
  have hshrinks := readWord_skip_shrinks skipArraySpace_suffix
  have hwords := (readWords_eq_found_iff skipArraySpace_suffix).1 h
  have hends : EndsLine rest :=
    hcs.suffix (hwords.suffix hshrinks) (by rintro rfl; exact hrest rfl)
  refine ⟨hends, (readWords_eq_found_iff skipArraySpace_suffix).2 ?_⟩
  refine hwords.append (fun cs => skipArraySpace cs ≠ []) hshrinks ?_ ?_ hcs hends hrest
  · intro cs word rest hcs hword _
    have hne : skipArraySpace cs ≠ [] := by
      intro hnil
      rw [hnil] at hword
      cases hword
    have hextends := readWord_skipArraySpace_append hcs hne more
    rw [hword, Extends.found_iff] at hextends
    exact hextends.2
  · intro cs hcs hword hne
    have hextends := readWord_skipArraySpace_append hcs hne more
    rw [hword, Extends.absent_iff] at hextends
    exact hextends

/-- An array is closed on a line before the end of the text. -/
theorem readArray_isLocal : IsLocal readArray := by
  intro cs hcs more
  cases cs with
  | nil => exact absurd rfl hcs.ne_nil
  | cons c others =>
    by_cases hopen : c = '('
    · subst hopen
      have hothers : EndsLine others := hcs.of_cons (by decide)
      apply Extends.whileReading
      cases hread : readWords skipArraySpace others with
      | found words mid =>
        cases hskip : skipArraySpace mid with
        | nil => simpa [Outcome.andThen, hskip] using .broken
        | cons d rest =>
          by_cases hclose : d = ')'
          · subst hclose
            have hne : skipArraySpace mid ≠ [] := by simp [hskip]
            obtain ⟨hmid, hmore⟩ := readWords_skipArraySpace_append hothers hread hne more
            have hspace : EndsLine (')' :: rest) :=
              hskip ▸ hmid.suffix (skipArraySpace_suffix mid) hne
            have happend : skipArraySpace (mid ++ more) = ')' :: (rest ++ more) := by
              have hskipMore := skipComments_append hmid hne more
              rw [← skipArraySpace, ← skipArraySpace, hskip] at hskipMore
              exact hskipMore
            simpa [Outcome.andThen, hskip, hmore, happend] using
              .found (hspace.of_cons (by decide))
          · simpa [Outcome.andThen, hskip, hclose] using .broken
      | absent => exact absurd hread (readWords_ne_absent _ others)
      | broken fault mid => exact .broken
    · simpa [readArray, hopen] using .absent

/-- An assignment is read without regard to the lines that follow. -/
theorem readAssignment_isLocal : IsLocal readAssignment := by
  intro cs hcs more
  have hname := splitName?_append hcs more
  unfold readAssignment
  cases hread : splitName? cs with
  | none => simpa [hname, hread] using .absent
  | some p =>
    obtain ⟨name, rest⟩ := p
    have hrest := hcs.of_splitName? hread
    cases rest with
    | nil => exact absurd rfl hrest.ne_nil
    | cons c rest =>
      by_cases hc : c = '='
      · subst hc
        have hvalue : EndsLine rest := hrest.of_cons (by decide)
        simp only [hname, hread, Option.map_some, List.cons_append]
        exact ((readArray_isLocal hvalue more).orElse
          ((readWordParts_isLocal hvalue more).map _)).map _
      · simpa [hname, hread, hc] using .absent

/-- Assignments on a line. -/
theorem readAssignments_isLocal : IsLocal readAssignments := by
  intro cs hcs more
  have hrepeated := (withSpace_isLocal readAssignment_isLocal).repeated
    (withSpace_shrinks readAssignment_shrinks) hcs more
  rw [← readAssignmentsUpTo_eq, ← readAssignmentsUpTo_eq] at hrepeated
  unfold readAssignments
  cases hread : readAssignmentsUpTo (cs.length + 1) cs with
  | found assignments rest =>
    rw [hread, Extends.found_iff] at hrepeated
    rw [hrepeated.2]
    cases assignments with
    | nil => exact .absent
    | cons first others => exact .found hrepeated.1
  | absent =>
    rw [hread, Extends.absent_iff] at hrepeated
    rw [hrepeated]
    exact .absent
  | broken fault rest => exact .broken

/-! ## Statements -/

/-- A line that ends behind a keyword ends behind what follows the keyword. -/
theorem EndsLine.of_keyword {keyword others : List Char} {c : Char}
    (h : EndsLine (keyword ++ c :: others)) (hc : c = ' ' ∨ c = '\t') : EndsLine others := by
  refine (h.suffix (List.suffix_append _ _) (by simp)).of_cons ?_
  rcases hc with rfl | rfl <;> decide

theorem EndsLine.of_afterKeyword? {keyword : String} {cs rest : List Char} (h : EndsLine cs)
    (hread : afterKeyword? keyword cs = some rest) : EndsLine rest := by
  obtain ⟨c, others, rfl, hc, rfl⟩ := afterKeyword?_eq_some_iff.1 hread
  exact (h.of_keyword hc).dropWhile rfl

/-- A keyword without line feeds does not come to stand in front of a text. -/
theorem afterKeyword?_append {keyword : String} (hkeyword : '\n' ∉ keyword.toList)
    {cs : List Char} (h : EndsLine cs) (more : List Char) :
    afterKeyword? keyword (cs ++ more) = (afterKeyword? keyword cs).map (· ++ more) := by
  cases hread : afterKeyword? keyword cs with
  | some rest =>
    obtain ⟨c, others, rfl, hc, rfl⟩ := afterKeyword?_eq_some_iff.1 hread
    refine afterKeyword?_eq_some_iff.2 ⟨c, others ++ more, by simp, hc, ?_⟩
    exact Text.dropWhile_append_of_ne_nil ((h.of_keyword hc).dropWhile_ne_nil rfl) more
  | none =>
    rw [Option.map_none, Option.eq_none_iff_forall_ne_some]
    intro rest hmore
    obtain ⟨c, others, heq, hc, -⟩ := afterKeyword?_eq_some_iff.1 hmore
    -- The keyword ends within the text, as it holds no line feed and so cannot reach over the last.
    rcases List.append_eq_append_iff.1 heq with ⟨tail, htail, -⟩ | ⟨tail, rfl, htail⟩
    · exact hkeyword (htail ▸ List.mem_append_left _ h.mem)
    · cases tail with
      | nil => exact hkeyword (by simpa using h.mem)
      | cons d tail =>
        obtain ⟨rfl, -⟩ := List.cons.inj htail
        rw [afterKeyword?_eq_some_iff.2 ⟨c, tail, rfl, hc, rfl⟩] at hread
        cases hread

/-- A line that includes a file is read without regard to the lines that follow. -/
theorem readSource_isLocal : IsLocal readSource := by
  intro cs hcs more
  have hfeed : '\n' ∉ "source".toList := by decide
  have hkeyword := afterKeyword?_append hfeed hcs more
  unfold readSource
  cases hread : afterKeyword? "source" cs with
  | none => simpa [hkeyword, hread] using .absent
  | some rest =>
    rw [hkeyword, hread]
    have hword := readWord_isLocal (hcs.of_afterKeyword? hread) more
    exact ((hword.required .unreadable rest (rest ++ more)).map _).whileReading _

/-- A line that inherits is read without regard to the lines that follow. -/
theorem readInherit_isLocal : IsLocal readInherit := by
  intro cs hcs more
  have hfeed : '\n' ∉ "inherit".toList := by decide
  have hkeyword := afterKeyword?_append hfeed hcs more
  unfold readInherit
  cases hread : afterKeyword? "inherit" cs with
  | none => simpa [hkeyword, hread] using .absent
  | some rest =>
    rw [hkeyword, hread]
    have hrest := hcs.of_afterKeyword? hread
    have hrepeated := (withSpace_isLocal readWord_isLocal).repeated
      (withSpace_shrinks readWord_shrinks) hrest more
    rw [← readArgumentsUpTo_eq, ← readArgumentsUpTo_eq] at hrepeated
    exact hrepeated.map Command.inherit

/-- Whatever a line commands, it is read without regard to the lines that follow. -/
theorem readCommand_isLocal : IsLocal readCommand := fun cs hcs more =>
  (((readSource_isLocal hcs more).orElse (readInherit_isLocal hcs more)).orElse
    (readAssignments_isLocal hcs more)).required _ cs (cs ++ more)

/-- A statement is read alike with more text behind. -/
theorem readStatement_append {cs rest : List Char} {command : Command} (hcs : EndsLine cs)
    (h : readStatement cs = .found command rest) (more : List Char) :
    EndsLine rest ∧ readStatement (cs ++ more) = .found command (rest ++ more) := by
  obtain ⟨hcommand, hend⟩ := readStatement_eq_found_iff.1 h
  have hextends := withSpace_isLocal readCommand_isLocal hcs more
  rw [hcommand, Extends.found_iff] at hextends
  obtain ⟨hrest, hmore⟩ := hextends
  refine ⟨hrest, readStatement_eq_found_iff.2 ⟨hmore, ?_⟩⟩
  cases rest with
  | nil => exact absurd rfl hrest.ne_nil
  | cons c rest => simpa [EndsStatement] using hend

/-! ## Whole texts -/

/-- Separators in front of a statement are skipped alike with more lines behind it. -/
theorem skipSeparators_append {cs : List Char} (hcs : EndsLine cs)
    (hne : skipSeparators cs ≠ []) (more : List Char) :
    skipSeparators (cs ++ more) = skipSeparators cs ++ more :=
  skipComments_append hcs hne more

/-- Where there are only separators, skipping goes on in the lines that follow. -/
theorem skipSeparators_append_of_nil {cs : List Char} (hcs : EndsLine cs)
    (hnil : skipSeparators cs = []) (more : List Char) :
    skipSeparators (cs ++ more) = skipSeparators more :=
  skipComments_append_of_nil hcs hnil more

/-- A statement as many lines further down. -/
def Statement.shift (lines : Nat) (st : Statement) : Statement :=
  { st with line := lines + st.line }

/-- Lines that follow do not change the number of a line. -/
theorem lineOf_append {input rest : List Char} (h : rest.length ≤ input.length)
    (more : List Char) : lineOf (input ++ more) (rest ++ more) = lineOf input rest := by
  have hlength : (input ++ more).length - (rest ++ more).length = input.length - rest.length := by
    simp only [List.length_append]
    omega
  rw [lineOf, lineOf, hlength, List.take_append_of_le_length (by omega)]

/-- Lines in front are counted in the number of a line. -/
theorem lineOf_append_left {input rest : List Char} (h : rest.length ≤ input.length)
    (front : List Char) :
    lineOf (front ++ input) rest = front.count '\n' + lineOf input rest := by
  have hlength : (front ++ input).length - rest.length =
      front.length + (input.length - rest.length) := by
    simp only [List.length_append]
    omega
  rw [lineOf, lineOf, hlength, List.take_length_add_append, List.count_append, Nat.add_assoc]

/-- Statements stand further down with lines in front. -/
theorem Parses.shift {input cs : List Char} {parsed : List Statement} (h : Parses input cs parsed)
    (hcs : cs.length ≤ input.length) (front : List Char) :
    Parses (front ++ input) cs (parsed.map (Statement.shift (front.count '\n'))) := by
  induction h with
  | done hdone => exact .done hdone
  | @next cs start rest c command others hstart hread hothers ih =>
    have hlength : (c :: start).length ≤ cs.length := hstart ▸ (skipSeparators_suffix cs).length_le
    have hshort := (readStatement_shrinks hread).2
    have hline := lineOf_append_left (hlength.trans hcs) front
    have hrest := ih (by omega)
    rw [List.map_cons, Statement.shift, ← hline]
    exact .next hstart hread hrest

/-- The statements of a text that ends a line are followed by those of the text behind it. -/
theorem Parses.append {input cs more : List Char} {first second : List Statement}
    (h : Parses input cs first) (hcs : cs = [] ∨ EndsLine cs) (hlength : cs.length ≤ input.length)
    (hmore : Parses (input ++ more) more second) :
    Parses (input ++ more) (cs ++ more) (first ++ second) := by
  induction h with
  | done hdone =>
    rcases hcs with rfl | hcs
    · exact hmore
    · exact hmore.of_skipSeparators (skipSeparators_append_of_nil hcs hdone more)
  | @next cs start rest c command others hstart hread hothers ih =>
    have hne : skipSeparators cs ≠ [] := by simp [hstart]
    have hends : EndsLine cs := by
      refine hcs.resolve_left ?_
      rintro rfl
      exact hne rfl
    have hsuffix := skipSeparators_suffix cs
    have hskip := skipSeparators_append hends hne more
    rw [hstart] at hsuffix hskip
    have hlengths := hsuffix.length_le
    have hshort := (readStatement_shrinks hread).2
    obtain ⟨hrest, hmoreRead⟩ := readStatement_append (hends.suffix hsuffix (by simp)) hread more
    have hline : lineOf (input ++ more) (c :: start ++ more) = lineOf input (c :: start) :=
      lineOf_append (by omega) more
    rw [← hline]
    exact .next hskip hmoreRead (ih (.inr hrest) (by omega))

/-- The statements of two texts one behind the other. -/
theorem statements_append {s t : String} {first second : List Statement}
    (hs : s.toList = [] ∨ EndsLine s.toList) (hfirst : statements s = .ok first)
    (hsecond : statements t = .ok second) :
    statements (s ++ t) = .ok (first ++ second.map (Statement.shift (s.toList.count '\n'))) := by
  rw [statements_eq_ok_iff] at hfirst hsecond ⊢
  rw [String.toList_append]
  exact hfirst.append hs le_rfl (hsecond.shift le_rfl s.toList)

end Script
end EbuildGraph
