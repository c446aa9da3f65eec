import EbuildGraph.Dependency.Parser
import EbuildGraph.Proofs.Atom.Text
import EbuildGraph.Proofs.Grammar

/-!
# Package tokens

A package token ends at a blank, and at a parenthesis outside of brackets.  Where it ends
depends on the token alone as long as a space or nothing follows, and neither an exclamation
mark nor a colon opens or closes brackets.

Main definitions:

- {lit}`IsToken`: whether characters are a token as a whole.
- {lit}`Atom.IsLegible`: whether an atom is read from the token that it is written as.

Main results:

- Theorem {lit}`splitToken_append`: a token is found where it is written.
- Theorem {lit}`eq_append_of_splitToken`: what is cut off is a token without blanks.
- Theorems {lit}`packageOfToken_text` and {lit}`exists_of_packageOfToken`: a leaf and the token
  it is written as.
-/

namespace EbuildGraph
namespace Dependency

/-! ## Where tokens end -/

/-- Whether a token ends before a character behind so many open brackets. -/
def endsToken (brackets : Nat) (c : Char) : Bool :=
  Text.isBlank c || ((c == '(' || c == ')') && brackets == 0)

/-- The number of open brackets behind a character. -/
def bracketsAfter (brackets : Nat) (c : Char) : Nat :=
  if c = '[' then brackets + 1 else if c = ']' then brackets - 1 else brackets

/-- Whether characters are a token as a whole. -/
def IsToken (brackets : Nat) (cs : List Char) : Prop :=
  splitToken brackets cs = (cs, [])

/-- Nothing is left of a token where one ends. -/
theorem splitToken_of_ends {k : Nat} {c : Char} (h : endsToken k c = true) (cs : List Char) :
    splitToken k (c :: cs) = ([], c :: cs) :=
  if_pos h

/-- A token goes on with a character that ends none. -/
theorem splitToken_of_not_ends {k : Nat} {c : Char} (h : endsToken k c = false)
    (cs : List Char) :
    splitToken k (c :: cs) =
      (c :: (splitToken (bracketsAfter k c) cs).1, (splitToken (bracketsAfter k c) cs).2) :=
  if_neg (Bool.eq_false_iff.1 h)

theorem isToken_nil (k : Nat) : IsToken k [] :=
  rfl

/-- A token is a character that ends none and a token behind it. -/
theorem isToken_cons_iff {k : Nat} {c : Char} {cs : List Char} :
    IsToken k (c :: cs) ↔ endsToken k c = false ∧ IsToken (bracketsAfter k c) cs := by
  rcases hends : endsToken k c with _ | _
  · rw [IsToken, splitToken_of_not_ends hends, IsToken, Prod.ext_iff, Prod.ext_iff]
    simp
  · rw [IsToken, splitToken_of_ends hends]
    simp

/-- A character that neither ends a token nor is a bracket is part of one wherever it
stands. -/
theorem isToken_insert_iff {c : Char} (hends : ∀ k, endsToken k c = false)
    (hbrackets : ∀ k, bracketsAfter k c = k) (k : Nat) (cs ds : List Char) :
    IsToken k (cs ++ c :: ds) ↔ IsToken k (cs ++ ds) := by
  induction cs generalizing k with
  | nil =>
    rw [List.nil_append, isToken_cons_iff, hbrackets, and_iff_right (hends k), List.nil_append]
  | cons first cs ih =>
    rw [List.cons_append, isToken_cons_iff, ih, List.cons_append, isToken_cons_iff]

/-- A colon may stand anywhere in a token. -/
theorem isToken_colon_iff {k : Nat} {cs ds : List Char} :
    IsToken k (cs ++ ':' :: ds) ↔ IsToken k (cs ++ ds) :=
  isToken_insert_iff (fun _ => rfl) (fun _ => rfl) k cs ds

/-- Marks in front of a token do not count. -/
theorem isToken_marks_iff {k n : Nat} {cs : List Char} :
    IsToken k (List.replicate n '!' ++ cs) ↔ IsToken k cs := by
  induction n with
  | zero => rfl
  | succ n ih =>
    rw [List.replicate_succ, List.cons_append, ← ih]
    exact isToken_insert_iff (fun _ => rfl) (fun _ => rfl) k [] _

/-- No character of a token is blank. -/
theorem isBlank_of_isToken {k : Nat} {cs : List Char} (h : IsToken k cs) :
    ∀ c ∈ cs, Text.isBlank c = false := by
  induction cs generalizing k with
  | nil => exact nofun
  | cons first cs ih =>
    obtain ⟨hends, hrest⟩ := isToken_cons_iff.1 h
    exact List.forall_mem_cons.2 ⟨(Bool.or_eq_false_iff.1 hends).1, ih hrest⟩

/-- A token is found where it is written. -/
theorem splitToken_append {k : Nat} {cs rest : List Char} (h : IsToken k cs)
    (hcut : Text.IsCut rest) : splitToken k (cs ++ rest) = (cs, rest) := by
  induction cs generalizing k with
  | nil =>
    cases rest with
    | nil => rfl
    | cons c rest =>
      obtain rfl : c = ' ' := hcut c rfl
      exact splitToken_of_ends rfl rest
  | cons first cs ih =>
    obtain ⟨hends, hrest⟩ := isToken_cons_iff.1 h
    rw [List.cons_append, splitToken_of_not_ends hends, ih hrest]

/-- What is cut off is a token, and nothing is lost. -/
theorem eq_append_of_splitToken {k : Nat} {cs token rest : List Char}
    (h : splitToken k cs = (token, rest)) : cs = token ++ rest ∧ IsToken k token := by
  induction cs generalizing k token with
  | nil =>
    cases h
    exact ⟨rfl, isToken_nil k⟩
  | cons c cs ih =>
    rcases hends : endsToken k c with _ | _
    · rw [splitToken_of_not_ends hends] at h
      cases h
      obtain ⟨heq, htoken⟩ := ih (k := bracketsAfter k c) rfl
      exact ⟨congrArg (c :: ·) heq, isToken_cons_iff.2 ⟨hends, htoken⟩⟩
    · rw [splitToken_of_ends hends] at h
      cases h
      exact ⟨rfl, isToken_nil k⟩

/-! ## Exclamation marks -/

/-- Blocking is written as a number of marks. -/
theorem Blocking.toList_text (b : Blocking) : b.text.toList = List.replicate b.count '!' := by
  cases b <;> rfl

/-- Blocking is known by the number of its marks. -/
theorem Blocking.ofCount?_count (b : Blocking) : Blocking.ofCount? b.count = some b := by
  cases b <;> rfl

/-- What is known by a number of marks has this number of marks. -/
theorem Blocking.count_of_ofCount? {n : Nat} {b : Blocking} (h : Blocking.ofCount? n = some b) :
    b.count = n := by
  unfold ofCount? at h
  split at h <;> cases h <;> rfl

/-- A token is its exclamation marks and the rest. -/
theorem marks_append_dropWhile (cs : List Char) :
    cs = List.replicate (cs.length - (cs.dropWhile (· == '!')).length) '!' ++
      cs.dropWhile (· == '!') := by
  induction cs with
  | nil => rfl
  | cons c cs ih =>
    by_cases hc : c = '!'
    · have hle : (cs.dropWhile (· == '!')).length ≤ cs.length :=
        (List.dropWhile_suffix _).length_le
      rw [hc, List.dropWhile_cons_of_pos rfl, List.length_cons, Nat.succ_sub hle,
        List.replicate_succ, List.cons_append, ← ih]
    · rw [List.dropWhile_cons_of_neg (by simpa using hc), Nat.sub_self]
      rfl

/-! ## Leaves -/

end Dependency

/-- Whether the text of an atom is one token, and is read as that atom. -/
structure Atom.IsLegible (a : Atom) : Prop where
  isToken_text : Dependency.IsToken 0 a.text.toList
  parse_text : Atom.parse a.text = .ok a

/-- Whether a character may stand at the beginning of an atom. -/
def isAtomStart (c : Char) : Bool :=
  isNameStart c || ['<', '=', '~', '>'].contains c

/-- An atom begins with its operator or with its name. -/
theorem Atom.exists_start_text {a : Atom} (h : a.IsQualified) :
    ∃ c rest, a.text.toList = c :: rest ∧ isAtomStart c = true := by
  have hfront : ∃ c rest, (frontText a.name a.writtenBound).toList = c :: rest ∧
      isAtomStart c = true := by
    rw [writtenBound]
    cases a.bound with
    | none =>
      obtain ⟨c, rest, hname, hc⟩ := exists_start_of_checkQualified h
      exact ⟨c, rest, hname, Bool.or_eq_true_iff.2 (Or.inl hc)⟩
    | some b =>
      obtain ⟨c, rest, hoperator, hc⟩ : ∃ c rest, b.comparison.operator.toList = c :: rest ∧
          isAtomStart c = true := by
        cases b.comparison <;> exact ⟨_, _, rfl, by decide⟩
      refine ⟨c, rest ++ (a.name ++ "-" ++ b.version.text ++ b.comparison.star).toList, ?_, hc⟩
      simp [VersionBound.written, frontText, hoperator]
  obtain ⟨c, rest, hchars, hc⟩ := hfront
  rw [text_eq_assemble, assemble, String.toList_append, String.toList_append, hchars]
  exact ⟨c, _, rfl, hc⟩

namespace Dependency

/-- A leaf is found in the token it is written as. -/
theorem packageOfToken_text {a : Atom} (h : a.IsLegible) (blocking : Blocking) :
    packageOfToken (blocking.text.toList ++ a.text.toList) = .ok (.package a blocking) := by
  obtain ⟨c, rest, hstart, hc⟩ := Atom.exists_start_text (Atom.isQualified_of_parse h.parse_text)
  have hne : (c == '!') = false := by
    rw [beq_eq_false_iff_ne]
    rintro rfl
    cases hc
  have hdrop : (blocking.text.toList ++ a.text.toList).dropWhile (· == '!') = a.text.toList := by
    rw [Blocking.toList_text, List.dropWhile_append_of_pos (by simp), hstart,
      List.dropWhile_cons_of_neg (by simp [hne])]
  have hcount : (blocking.text.toList ++ a.text.toList).length - a.text.toList.length =
      blocking.count := by
    rw [List.length_append, Nat.add_sub_cancel, Blocking.toList_text, List.length_replicate]
  rw [packageOfToken]
  simp only [hdrop, hcount, Blocking.ofCount?_count, String.ofList_toList, h.parse_text]
  rfl

/-- A token that a leaf was found in is its exclamation marks and the text of its atom. -/
theorem exists_of_packageOfToken {token : List Char} {e : Expr} (htoken : IsToken 0 token)
    (h : packageOfToken token = .ok e) :
    ∃ (a : Atom) (blocking : Blocking) (s : String), e = .package a blocking ∧
      token = blocking.text.toList ++ s.toList ∧ IsToken 0 s.toList ∧ Atom.parse s = .ok a := by
  have hmarks := marks_append_dropWhile token
  unfold packageOfToken at h
  dsimp only at h
  split at h
  · cases h
  next blocking hcount =>
  obtain ⟨a, ha, rfl⟩ := map_eq_ok_iff.1 h
  rw [← Blocking.count_of_ofCount? hcount, ← Blocking.toList_text] at hmarks
  refine ⟨a, blocking, String.ofList (token.dropWhile (· == '!')), rfl, ?_, ?_, ha⟩
  · rw [String.toList_ofList]
    exact hmarks
  · rw [hmarks, Blocking.toList_text] at htoken
    rw [String.toList_ofList]
    exact isToken_marks_iff.1 htoken

/-- The atom that was found in a token is legible. -/
theorem isLegible_of_parse {s : String} {a : Atom} (htoken : IsToken 0 s.toList)
    (h : Atom.parse s = .ok a) : a.IsLegible := by
  refine ⟨?_, Atom.parse_text h⟩
  rcases Atom.text_of_parse h with heq | ⟨hempty, heq⟩
  · rw [← heq]
    exact htoken
  · rw [heq, String.toList_append, String.toList_append, List.append_assoc] at htoken
    rw [Atom.text_of_no_slot hempty, String.toList_append]
    exact isToken_colon_iff.1 htoken

/-! ## Leaves are no conditions -/

/-- Whether no flag with a question mark behind it stands at the front. -/
def StartsWithoutFlag (cs : List Char) : Prop :=
  ∀ c tail after, cs = c :: tail → c.isAlphanum = true →
    tail.dropWhile isUseFlagChar ≠ '?' :: after

/-- Without a flag at the front there is no condition, with a mark or without one. -/
theorem splitCondition?_of_startsWithoutFlag {cs : List Char} (h : StartsWithoutFlag cs) :
    splitCondition? ('!' :: cs) = none ∧ (cs.head? ≠ some '!' → splitCondition? cs = none) := by
  have hnone : ∀ ds : List Char, ds = '!' :: cs ∨ ds = cs ∧ ds.head? ≠ some '!' →
      splitCondition? ds = none := by
    intro ds hds
    unfold splitCondition?
    split
    next expect flagged hsign =>
    obtain rfl : flagged = cs := by
      rcases hds with rfl | ⟨rfl, hhead⟩
      · cases hsign
        rfl
      · split at hsign
        · exact absurd rfl hhead
        · cases hsign
          rfl
    split
    · rfl
    next c rest =>
    split
    · next hc =>
      split
      · next after hafter => exact absurd hafter (h c rest after rfl hc)
      · rfl
    · rfl
  exact ⟨hnone _ (Or.inl rfl), fun hhead => hnone _ (Or.inr ⟨rfl, hhead⟩)⟩

/-- A slash ends the search for the end of a flag. -/
theorem dropWhile_ne_of_slash {cs ds after : List Char} (h : '?' ∉ cs) :
    (cs ++ '/' :: ds).dropWhile isUseFlagChar ≠ '?' :: after := by
  induction cs with
  | nil =>
    rw [List.nil_append, List.dropWhile_cons_of_neg (by decide)]
    simp
  | cons c cs ih =>
    rw [List.mem_cons, not_or] at h
    rw [List.cons_append, List.dropWhile_cons]
    split
    · exact ih h.2
    · intro heq
      exact h.1 (List.cons.inj heq).1.symm

/-- A name has a slash before any question mark, and behind an operator there is no flag. -/
theorem startsWithoutFlag_text {a : Atom} (h : a.IsQualified) (rest : List Char) :
    StartsWithoutFlag (a.text.toList ++ rest) := by
  intro c tail after hstart hc
  rw [Atom.text_eq_assemble, Atom.assemble, Atom.writtenBound] at hstart
  cases hbound : a.bound with
  | none =>
    obtain ⟨category, package, hparts⟩ := checkQualified_eq_ok h
    have hmark : '?' ∉ category.toList :=
      not_mem_of_isNameOf hparts.category (by decide) (by decide)
    obtain ⟨first, others, hfirst⟩ : ∃ first others, category.toList = first :: others := by
      rcases hcategory : category.toList with _ | ⟨first, others⟩
      · exact absurd (String.toList_inj.1 (hcategory.trans rfl)) (ne_of_isNameOf hparts.category).1
      · exact ⟨first, others, rfl⟩
    rw [hbound, hparts.name_eq] at hstart
    simp only [Option.map_none, Atom.frontText, String.toList_append, hfirst, List.append_assoc,
      List.cons_append, List.cons.injEq] at hstart
    rw [← hstart.2]
    refine dropWhile_ne_of_slash fun hmem => hmark ?_
    rw [hfirst]
    exact List.mem_cons_of_mem first hmem
  | some b =>
    exfalso
    rw [hbound] at hstart
    have hoperator : ∀ comparison : Comparison, ∃ o others,
        comparison.operator.toList = o :: others ∧ o.isAlphanum = false := by
      intro comparison
      cases comparison <;> exact ⟨_, _, rfl, by decide⟩
    obtain ⟨o, others, ho, hfalse⟩ := hoperator b.comparison
    simp only [Option.map_some, VersionBound.written, Atom.frontText, String.toList_append, ho,
      List.append_assoc, List.cons_append, List.cons.injEq] at hstart
    rw [← hstart.1, hfalse] at hc
    cases hc

/-- A leaf is not read as the condition of a group. -/
theorem splitCondition?_text {a : Atom} (h : a.IsQualified) (blocking : Blocking)
    (rest : List Char) :
    splitCondition? (blocking.text.toList ++ (a.text.toList ++ rest)) = none := by
  have hnone := splitCondition?_of_startsWithoutFlag (startsWithoutFlag_text h rest)
  cases blocking with
  | none =>
    refine hnone.2 ?_
    obtain ⟨c, others, hstart, hc⟩ := Atom.exists_start_text h
    rw [hstart]
    rintro ⟨⟩
    cases hc
  | weak => exact hnone.1
  | strong => rfl

end Dependency
end EbuildGraph
