import EbuildGraph.Proofs.Script.Repetition
import EbuildGraph.Proofs.Text.Runs
import Mathlib.Data.List.TakeWhile

/-!
# Ends of lines in scripts

A text that ends a line is read in the same way when more text is put behind it.  A line feed
without a backslash before it ends names and words, and a quoted string that is still open there
is open at the end of the text, which is a failure.  No rule that succeeds therefore depends on
what follows the last line feed.  Only comments and separators may reach the end of the text and
go on in what stands behind it.

Main definitions:

- {lit}`EndsLine`: whether a text ends in a line feed that no backslash is before.
- {lit}`Extends`: what a rule reports of a text that ends a line and with more text behind.
- {lit}`IsLocal`: whether a rule reads a text that ends a line as it does with more text behind.

Main results:

- Theorem {lit}`IsLocal.repeated`: a repetition of a rule that ends with a line ends with it.
- Theorem {lit}`readWord_isLocal`: a word ends with a line.
- Theorem {lit}`skipComments_append`, Theorem {lit}`skipComments_append_of_nil`: comments and
  separators with more text behind.
-/

namespace EbuildGraph
namespace Script

variable {α β : Type}

/-- Whether a text ends in a line feed that no backslash is before. -/
def EndsLine (cs : List Char) : Prop :=
  ∃ front, cs = front ++ ['\n'] ∧ front.getLast? ≠ some '\\'

namespace EndsLine

variable {c : Char} {cs rest : List Char}

theorem ne_nil (h : EndsLine cs) : cs ≠ [] := by
  obtain ⟨front, rfl, -⟩ := h
  simp

theorem getLast (h : EndsLine cs) : cs.getLast? = some '\n' := by
  obtain ⟨front, rfl, -⟩ := h
  simp

/-- What is left of a text that ends a line ends a line, unless nothing is left. -/
theorem suffix (h : EndsLine cs) (hrest : rest <:+ cs) (hne : rest ≠ []) : EndsLine rest := by
  obtain ⟨front, rfl, hfront⟩ := h
  obtain ⟨used, hused⟩ := hrest
  obtain ⟨back, d, rfl⟩ := (List.eq_nil_or_concat' rest).resolve_left hne
  rw [← List.append_assoc] at hused
  obtain ⟨rfl, hd⟩ := List.append_inj' hused rfl
  obtain rfl : d = '\n' := by simpa using hd
  refine ⟨back, rfl, fun hback => hfront ?_⟩
  rw [List.getLast?_append, hback, Option.some_or]

theorem of_cons (h : EndsLine (c :: cs)) (hc : c ≠ '\n') : EndsLine cs := by
  refine h.suffix (List.suffix_cons c cs) ?_
  rintro rfl
  exact hc (by simpa using h.getLast)

/-- A character behind a backslash does not end the text. -/
theorem of_escape (h : EndsLine ('\\' :: c :: cs)) : EndsLine cs := by
  refine h.suffix ((List.suffix_cons c cs).trans (List.suffix_cons _ _)) ?_
  rintro rfl
  obtain ⟨front, hfront, hlast⟩ := h
  obtain ⟨rfl, -⟩ : ['\\'] = front ∧ [c] = ['\n'] := List.append_inj' hfront rfl
  exact hlast rfl

theorem mem (h : EndsLine cs) : '\n' ∈ cs := by
  obtain ⟨front, rfl, -⟩ := h
  simp

/-- A run of a class without line feeds ends before the end of the text. -/
theorem dropWhile_ne_nil {p : Char → Bool} (h : EndsLine cs) (hp : p '\n' = false) :
    cs.dropWhile p ≠ [] := by
  intro hnil
  have hall := List.dropWhile_eq_nil_iff.1 hnil '\n' h.mem
  simp [hp] at hall

theorem dropWhile {p : Char → Bool} (h : EndsLine cs) (hp : p '\n' = false) :
    EndsLine (cs.dropWhile p) :=
  h.suffix (List.dropWhile_suffix p) (h.dropWhile_ne_nil hp)

end EndsLine

/-! ## Rules that end with a line -/

/-- Whether a rule that reports one outcome for a text that ends a line reports the other with
more text behind.  Nothing is said of a broken text, whose end may be what breaks it. -/
inductive Extends (more : List Char) : Reading α → Reading α → Prop where
  | found {a : α} {rest : List Char} (h : EndsLine rest) :
      Extends more (.found a rest) (.found a (rest ++ more))
  | absent : Extends more .absent .absent
  | broken {fault : LineFault} {rest : List Char} {o : Reading α} :
      Extends more (.broken fault rest) o

/-- Whether a rule reads a text that ends a line as it does with more text behind it. -/
def IsLocal (rule : List Char → Reading α) : Prop :=
  ∀ ⦃cs : List Char⦄, EndsLine cs → ∀ more, Extends more (rule cs) (rule (cs ++ more))

namespace Extends

variable {more : List Char} {o o' : Reading α}

theorem found_iff {a : α} {rest : List Char} :
    Extends more (.found a rest) o ↔ EndsLine rest ∧ o = .found a (rest ++ more) := by
  constructor
  · rintro ⟨h⟩
    exact ⟨h, rfl⟩
  · rintro ⟨h, rfl⟩
    exact .found h

theorem absent_iff : Extends more .absent o ↔ o = .absent := by
  constructor
  · rintro ⟨⟩
    rfl
  · rintro rfl
    exact .absent

theorem map (h : Extends more o o') (f : α → β) : Extends more (o.map f) (o'.map f) := by
  cases h with
  | found hrest => exact .found hrest
  | absent => exact .absent
  | broken => exact .broken

theorem andThen (h : Extends more o o') {next : α → List Char → Reading β}
    (hnext : ∀ a rest, EndsLine rest → Extends more (next a rest) (next a (rest ++ more))) :
    Extends more (o.andThen next) (o'.andThen next) := by
  cases h with
  | found hrest => exact hnext _ _ hrest
  | absent => exact .absent
  | broken => exact .broken

theorem orElse (h : Extends more o o') {other other' : Reading α}
    (hother : Extends more other other') : Extends more (o.orElse other) (o'.orElse other') := by
  cases h with
  | found hrest => exact .found hrest
  | absent => exact hother
  | broken => exact .broken

theorem required (h : Extends more o o') (fault : LineFault) (input input' : List Char) :
    Extends more (o.required fault input) (o'.required fault input') := by
  cases h with
  | found hrest => exact .found hrest
  | absent => exact .broken
  | broken => exact .broken

theorem whileReading (h : Extends more o o') (label : String) :
    Extends more (whileReading label o) (whileReading label o') := by
  cases h with
  | found hrest => exact .found hrest
  | absent => exact .absent
  | broken => exact .broken

end Extends

/-! ## Repetition -/

section Repetition

variable {rule : List Char → Reading α} {cs rest more : List Char} {found : List α}

/-- A repetition of a rule is the same with more text behind, if the rule is wherever some text
is left, and ends where it did. -/
theorem Repeats.append (Stops : List Char → Prop) (hshrinks : Shrinks rule)
    (hfound : ∀ ⦃cs a rest⦄, EndsLine cs → rule cs = .found a rest → rest ≠ [] →
      rule (cs ++ more) = .found a (rest ++ more))
    (hstop : ∀ ⦃cs⦄, EndsLine cs → rule cs = .absent → Stops cs → rule (cs ++ more) = .absent)
    (h : Repeats rule cs found rest) (hcs : EndsLine cs) (hrest : EndsLine rest)
    (hstops : Stops rest) : Repeats rule (cs ++ more) found (rest ++ more) := by
  induction h with
  | stop habsent => exact .stop (hstop hcs habsent hstops)
  | @next cs mid rest a others hfirst hothers ih =>
    -- Were nothing left here, the repetition would not end where a line does.
    have hne : mid ≠ [] := by
      rintro rfl
      exact hrest.ne_nil (List.eq_nil_of_suffix_nil (hothers.suffix hshrinks))
    have hmid := hcs.suffix (hshrinks hfirst).1 hne
    exact .next (hfound hcs hfirst hne) (ih hmid hrest hstops)

theorem IsLocal.endsLine_of_repeats (hlocal : IsLocal rule) (h : Repeats rule cs found rest)
    (hcs : EndsLine cs) : EndsLine rest := by
  induction h with
  | stop _ => exact hcs
  | next hfirst _ ih =>
    have hextends := hlocal hcs []
    rw [hfirst, Extends.found_iff] at hextends
    exact ih hextends.1

/-- A repetition of a rule that ends with a line ends with it. -/
theorem IsLocal.repeats (hlocal : IsLocal rule) (hshrinks : Shrinks rule)
    (h : Repeats rule cs found rest) (hcs : EndsLine cs) (more : List Char) :
    EndsLine rest ∧ Repeats rule (cs ++ more) found (rest ++ more) := by
  have hrest := hlocal.endsLine_of_repeats h hcs
  refine ⟨hrest, h.append (fun _ => True) hshrinks ?_ ?_ hcs hrest trivial⟩
  · intro cs a rest hcs hfound _
    have hextends := hlocal hcs more
    rw [hfound, Extends.found_iff] at hextends
    exact hextends.2
  · intro cs hcs habsent _
    have hextends := hlocal hcs more
    rw [habsent, Extends.absent_iff] at hextends
    exact hextends

/-- A repetition may be empty, but it always applies. -/
theorem repeatUpTo_ne_absent (rule : List Char → Reading α) (n : Nat) (cs : List Char) :
    repeatUpTo rule n cs ≠ .absent := by
  induction n generalizing cs with
  | zero => simp [repeatUpTo]
  | succ n ih =>
    rw [repeatUpTo]
    cases rule cs with
    | found a mid =>
      have hrest := ih mid
      cases hread : repeatUpTo rule n mid with
      | found others rest => simp [hread, Outcome.map]
      | absent => exact absurd hread hrest
      | broken fault rest => simp [hread, Outcome.map]
    | absent => simp
    | broken fault rest => simp

/-- A repetition of a rule that ends with a line ends with it, whatever its bound is. -/
theorem IsLocal.repeated (hlocal : IsLocal rule) (hshrinks : Shrinks rule) (hcs : EndsLine cs)
    (more : List Char) :
    Extends more (repeatUpTo rule (cs.length + 1) cs)
      (repeatUpTo rule ((cs ++ more).length + 1) (cs ++ more)) := by
  cases hread : repeatUpTo rule (cs.length + 1) cs with
  | found found rest =>
    have hrepeats := (repeatUpTo_eq_found_iff hshrinks (Nat.lt_succ_self cs.length)).1 hread
    obtain ⟨hrest, happend⟩ := hlocal.repeats hshrinks hrepeats hcs more
    rw [(repeatUpTo_eq_found_iff hshrinks (Nat.lt_succ_self (cs ++ more).length)).2 happend]
    exact .found hrest
  | absent => exact absurd hread (repeatUpTo_ne_absent rule _ cs)
  | broken fault mid => exact .broken

end Repetition

/-! ## Words -/

theorem splitName?_append {cs : List Char} (h : EndsLine cs) (more : List Char) :
    splitName? (cs ++ more) = (splitName? cs).map fun p => (p.1, p.2 ++ more) := by
  cases cs with
  | nil => exact absurd rfl h.ne_nil
  | cons c others =>
    rw [List.cons_append, splitName?, splitName?]
    split
    · next hc =>
      have hothers : EndsLine others := h.of_cons (by rintro rfl; cases hc)
      have hne := hothers.dropWhile_ne_nil (p := isNameChar) rfl
      rw [Text.takeWhile_append_of_dropWhile_ne_nil hne, Text.dropWhile_append_of_ne_nil hne]
      rfl
    · rfl

theorem EndsLine.of_splitName? {cs rest : List Char} {name : String} (h : EndsLine cs)
    (hname : splitName? cs = some (name, rest)) : EndsLine rest := by
  cases cs with
  | nil => cases hname
  | cons c others =>
    rw [splitName?] at hname
    split at hname
    · next hc =>
      cases hname
      have hothers : EndsLine others := h.of_cons (by rintro rfl; cases hc)
      exact hothers.dropWhile rfl
    · cases hname

theorem readExpansion_isLocal : IsLocal readExpansion := by
  intro cs hcs more
  cases cs with
  | nil => exact absurd rfl hcs.ne_nil
  | cons c others =>
    by_cases hbrace : c = '\x7b'
    · subst hbrace
      have hothers : EndsLine others := hcs.of_cons (by decide)
      rw [List.cons_append, readExpansion, readExpansion, splitName?_append hothers]
      cases hname : splitName? others with
      | none => exact .broken
      | some p =>
        obtain ⟨name, rest⟩ := p
        have hrest : EndsLine rest := hothers.of_splitName? hname
        cases rest with
        | nil => exact absurd rfl hrest.ne_nil
        | cons d rest =>
          by_cases hclose : d = '\x7d'
          · subst hclose
            exact .found (hrest.of_cons (by decide))
          · simpa [hclose] using .broken
    · have hname := splitName?_append hcs more
      rw [List.cons_append] at hname ⊢
      cases hread : splitName? (c :: others) with
      | none => simpa [readExpansion, hbrace, hread] using .broken
      | some p => simpa [readExpansion, hbrace, hname, hread] using .found (hcs.of_splitName? hread)

theorem readSingleQuoted_isLocal : IsLocal readSingleQuoted := by
  intro cs hcs more
  have hsuffix := List.dropWhile_suffix (· != '\'') (l := cs)
  unfold readSingleQuoted
  cases hdrop : cs.dropWhile (· != '\'') with
  | nil => exact .broken
  | cons c rest =>
    have hne : cs.dropWhile (· != '\'') ≠ [] := by simp [hdrop]
    have hc : c = '\'' := by
      have hhead := List.head?_dropWhile_not (· != '\'') cs
      simpa [hdrop] using hhead
    rw [hdrop] at hsuffix
    have hrest : EndsLine rest := (hcs.suffix hsuffix (by simp)).of_cons (by simp [hc])
    rw [Text.takeWhile_append_of_dropWhile_ne_nil hne, Text.dropWhile_append_of_ne_nil hne, hdrop]
    exact .found hrest

/-- A step between double quotes is the same with more text behind, if some text is left. -/
theorem readQuotedPart_append {cs rest : List Char} {word : Word} (hcs : EndsLine cs)
    (h : readQuotedPart cs = .found word rest) (hrest : rest ≠ []) (more : List Char) :
    readQuotedPart (cs ++ more) = .found word (rest ++ more) := by
  unfold readQuotedPart at h
  split at h
  · cases h
  · cases h
  · next others =>
    have hexpansion := readExpansion_isLocal (hcs.of_cons (by decide)) more
    obtain ⟨piece, hpiece, rfl⟩ := Outcome.map_eq_found_iff.1 h
    rw [hpiece, Extends.found_iff] at hexpansion
    simp [readQuotedPart, hexpansion, Outcome.map]
  · cases h
  · cases h
    rfl
  · cases h
  · next c others hquote hdollar hslash hescape htick =>
    cases h
    have hplain : c ≠ '\\' := by
      rintro rfl
      cases rest with
      | nil => exact hrest rfl
      | cons d rest => exact hescape d rest rfl rfl
    rw [List.cons_append, readQuotedPart]
    · exact hquote
    · exact hdollar
    · simp [hplain]
    · simp [hplain]
    · exact htick

theorem readParts_ne_absent (part : List Char → Reading Word) (cs : List Char) :
    readParts part cs ≠ .absent := by
  have habsent := repeatUpTo_ne_absent part (cs.length + 1) cs
  rw [readParts, readPartsUpTo_eq]
  cases hparts : repeatUpTo part (cs.length + 1) cs with
  | found parts rest => simp [Outcome.map]
  | absent => exact absurd hparts habsent
  | broken fault rest => simp [Outcome.map]

theorem readQuotedPart_absent_append {cs : List Char} (hcs : EndsLine cs)
    (h : readQuotedPart cs = .absent) (more : List Char) :
    readQuotedPart (cs ++ more) = .absent := by
  unfold readQuotedPart at h
  split at h
  · exact absurd rfl hcs.ne_nil
  · rfl
  · next others =>
    have hexpansion := readExpansion_isLocal (hcs.of_cons (by decide)) more
    cases hread : readExpansion others with
    | absent => simp_all [readQuotedPart, Extends.absent_iff, Outcome.map]
    | found piece rest => simp [hread, Outcome.map] at h
    | broken fault rest => simp [hread, Outcome.map] at h
  all_goals cases h

/-- A closing quote is found before the line ends or after, but not at the end of the text. -/
theorem readDoubleQuoted_isLocal : IsLocal readDoubleQuoted := by
  intro cs hcs more
  apply Extends.whileReading
  cases hread : readParts readQuotedPart cs with
  | found word mid =>
    cases mid with
    | nil => exact .broken
    | cons c rest =>
      by_cases hc : c = '"'
      · subst hc
        obtain ⟨parts, hparts, rfl⟩ := (readParts_eq_found_iff readQuotedPart_shrinks).1 hread
        have hmid := hcs.suffix (hparts.suffix readQuotedPart_shrinks) (by simp)
        have happend := hparts.append (fun _ => True) readQuotedPart_shrinks
          (fun cs _ rest hcs hfound hne => readQuotedPart_append hcs hfound hne more)
          (fun cs hcs habsent _ => readQuotedPart_absent_append hcs habsent more) hcs hmid trivial
        have hmore := (readParts_eq_found_iff readQuotedPart_shrinks).2 ⟨parts, happend, rfl⟩
        rw [hmore]
        exact .found (hmid.of_cons (by decide))
      · simpa [Outcome.andThen, hc] using .broken
  | absent => exact absurd hread (readParts_ne_absent _ cs)
  | broken fault mid => exact .broken

/-- Bare characters, escapes and expansions end before the line does. -/
theorem readWordPart_isLocal : IsLocal readWordPart := by
  intro cs hcs more
  cases cs with
  | nil => exact absurd rfl hcs.ne_nil
  | cons c others =>
    by_cases hsingle : c = '\''
    · subst hsingle
      exact readSingleQuoted_isLocal (hcs.of_cons (by decide)) more
    by_cases hdouble : c = '"'
    · subst hdouble
      exact readDoubleQuoted_isLocal (hcs.of_cons (by decide)) more
    by_cases hdollar : c = '$'
    · subst hdollar
      exact (readExpansion_isLocal (hcs.of_cons (by decide)) more).map _
    by_cases hslash : c = '\\'
    · subst hslash
      cases others with
      | nil => simpa using hcs.getLast
      | cons d rest => exact .found hcs.of_escape
    by_cases htick : c = '`'
    · subst htick
      exact .broken
    have hread : ∀ rest, readWordPart (c :: rest) =
        if isUnquotedChar c then .found [.char c] rest else .absent := fun rest => by
      unfold readWordPart
      split <;> simp_all
    rw [List.cons_append, hread, hread]
    split
    · next hc => exact .found (hcs.of_cons (by rintro rfl; cases hc))
    · exact .absent

theorem readWordParts_isLocal : IsLocal readWordParts := by
  intro cs hcs more
  rw [readWordParts, readWordParts, readParts, readParts, readPartsUpTo_eq, readPartsUpTo_eq]
  exact (readWordPart_isLocal.repeated readWordPart_shrinks hcs more).map List.flatten

theorem readWord_isLocal : IsLocal readWord := fun _ hcs more =>
  (readWordPart_isLocal hcs more).andThen fun _ _ hrest =>
    (readWordParts_isLocal hrest more).map _

/-! ## Space -/

/-- A text that ends a line does not come to start with a continuation. -/
theorem EndsLine.not_continuation {c : Char} {cs : List Char} (h : EndsLine (c :: cs))
    (hc : ∀ rest, c = '\\' → cs = '\n' :: rest → False) (more : List Char) :
    ∀ rest, c = '\\' → cs ++ more = '\n' :: rest → False := by
  rintro rest rfl hmore
  cases cs with
  | nil => simpa using h.getLast
  | cons d others =>
    obtain ⟨rfl, -⟩ := List.cons.inj hmore
    exact hc others rfl rfl

/-- Space within a statement ends before the line does. -/
theorem skipSpace_append {cs : List Char} (h : EndsLine cs) (more : List Char) :
    EndsLine (skipSpace cs) ∧ skipSpace (cs ++ more) = skipSpace cs ++ more := by
  fun_induction skipSpace cs with
  | case1 => exact absurd rfl h.ne_nil
  | case2 rest ih => simpa [skipSpace] using ih h.of_escape
  | case3 c rest hc hspace ih =>
    have hrest : EndsLine rest := h.of_cons (by rintro rfl; cases hspace)
    have hslash : c ≠ '\\' := by
      rintro rfl
      cases hspace
    simpa [skipSpace, hslash, hspace] using ih hrest
  | case4 c rest hc hspace =>
    refine ⟨h, ?_⟩
    rw [List.cons_append, skipSpace, if_neg hspace]
    exact h.not_continuation hc more

theorem withSpace_isLocal {rule : List Char → Reading α} (hrule : IsLocal rule) :
    IsLocal (withSpace rule) := fun _ hcs more =>
  (hrule hcs more).andThen fun _ _ hrest => by
    obtain ⟨hspace, happend⟩ := skipSpace_append hrest more
    rw [happend]
    exact .found hspace

/-- What comments and separators are in front of stays with more text behind. -/
theorem skipComments_append {isSeparator : Char → Bool} {inComment : Bool} {cs : List Char}
    (h : EndsLine cs) (hne : skipComments isSeparator inComment cs ≠ []) (more : List Char) :
    skipComments isSeparator inComment (cs ++ more) =
      skipComments isSeparator inComment cs ++ more := by
  have hrest : ∀ {c : Char} {rest : List Char} {inComment : Bool}, EndsLine (c :: rest) →
      skipComments isSeparator inComment rest ≠ [] → EndsLine rest := fun h hne =>
    h.suffix (List.suffix_cons _ _) (by rintro rfl; exact hne rfl)
  fun_induction skipComments isSeparator inComment cs with
  | case1 => exact absurd rfl h.ne_nil
  | case2 _ rest ih => simpa [skipComments] using ih h.of_escape hne
  | case3 c rest hc ih =>
    rw [List.cons_append, skipComments, if_pos rfl, ih (hrest h hne) hne]
    exact h.not_continuation hc more
  | case4 inComment rest hcomment hc ih =>
    rw [List.cons_append, skipComments, if_neg hcomment, if_pos rfl, ih (hrest h hne) hne]
    exact h.not_continuation hc more
  | case5 inComment c rest hc hcomment hhash hseparator ih =>
    rw [List.cons_append, skipComments, if_neg hcomment, if_neg hhash, if_pos hseparator,
      ih (hrest h hne) hne]
    exact h.not_continuation hc more
  | case6 inComment c rest hc hcomment hhash hseparator =>
    rw [List.cons_append, skipComments, if_neg hcomment, if_neg hhash, if_neg hseparator]
    exact h.not_continuation hc more

/-- Comments and separators that reach to the end of a line go on behind it. -/
theorem skipComments_append_of_nil {isSeparator : Char → Bool} {inComment : Bool}
    {cs : List Char} (h : EndsLine cs) (hnil : skipComments isSeparator inComment cs = [])
    (more : List Char) :
    skipComments isSeparator inComment (cs ++ more) = skipComments isSeparator false more := by
  fun_induction skipComments isSeparator inComment cs with
  | case1 => exact absurd rfl h.ne_nil
  | case2 _ rest ih => simpa [skipComments] using ih h.of_escape hnil
  | case3 c rest hc ih =>
    rw [List.cons_append, skipComments, if_pos rfl]
    · by_cases hempty : rest = []
      · subst hempty
        obtain rfl : c = '\n' := by simpa using h.getLast
        rfl
      · exact ih (h.suffix (List.suffix_cons _ _) hempty) hnil
    · exact h.not_continuation hc more
  | case4 inComment rest hcomment hc ih =>
    rw [List.cons_append, skipComments, if_neg hcomment, if_pos rfl]
    · exact ih (h.of_cons (by decide)) hnil
    · exact h.not_continuation hc more
  | case5 inComment c rest hc hcomment hhash hseparator ih =>
    rw [List.cons_append, skipComments, if_neg hcomment, if_neg hhash, if_pos hseparator]
    · by_cases hempty : rest = []
      · subst hempty
        rfl
      · exact ih (h.suffix (List.suffix_cons _ _) hempty) hnil
    · exact h.not_continuation hc more
  | case6 => cases hnil

end Script
end EbuildGraph
