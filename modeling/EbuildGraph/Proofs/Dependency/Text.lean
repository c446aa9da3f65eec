import EbuildGraph.Proofs.Dependency.Spelling

/-!
# Expressions as they are written

Reading finds what was written: a package token ends where a space follows, a leaf is no
condition, and each group is read up to its own closing parenthesis.

Main definition:

- {lit}`Expr.IsReadable`: whether an expression is read where it is written.

Main results:

- Theorem {lit}`Expr.IsLegible.isReadable`: a legible expression is read where it is written.
- Theorem {lit}`Spec.lossless_of_parse`: reading loses nothing but blanks and colons of empty
  slots, and what becomes of a value is read as it is written.
-/

namespace EbuildGraph
namespace Dependency

/-! ## Conditions and tokens -/

/-- The text of a condition is split into what it expects, its flag and what comes behind it. -/
theorem splitCondition?_conditionText {flag : String} (h : IsFlagName flag.toList)
    (expect : Bool) (after : List Char) :
    splitCondition? ((if expect then "" else "!").toList ++ (flag.toList ++ '?' :: after)) =
      some (expect, flag, after) := by
  obtain ⟨c, rest, hflag, hc, hrest⟩ := h
  have hmark : ('?' :: after).takeWhile isUseFlagChar = [] := rfl
  have htake : (rest ++ '?' :: after).takeWhile isUseFlagChar = rest := by
    rw [List.takeWhile_append_of_pos (List.all_eq_true.1 hrest), hmark, List.append_nil]
  have hdrop : (rest ++ '?' :: after).dropWhile isUseFlagChar = '?' :: after := by
    rw [List.dropWhile_append_of_pos (List.all_eq_true.1 hrest)]
    rfl
  have hname : String.ofList (c :: rest) = flag := by
    rw [← hflag, String.ofList_toList]
  have hne : c ≠ '!' := by
    rintro rfl
    cases hc
  cases expect with
  | true =>
    rw [hflag]
    simp [splitCondition?, hne, hc, htake, hdrop, hname]
  | false =>
    rw [hflag]
    simp [splitCondition?, hc, htake, hdrop, hname]

/-- An entry that begins with none of the marks of groups is a condition or a leaf. -/
theorem readEntry_of_not_mark {c : Char} (h : c ∉ ['(', ')', '|', '^', '?'])
    (members : List Char → Reading (List Expr)) (cs : List Char) :
    readEntry members (c :: cs) =
      (readConditional members (c :: cs)).orElse (readPackage (c :: cs)) := by
  unfold readEntry
  split <;> simp_all

/-! ## Members of groups -/

namespace Expr

/-- Whether an expression is read where it is written.  No step takes more members than the
text has characters. -/
structure IsReadable (e : Expr) : Prop where
  exists_start : ∃ c cs, e.text.toList = c :: cs ∧ Text.isLayout c = false
  readEntry_text : ∀ n rest, e.text.length ≤ n → Text.IsCut rest →
    readEntry (readEntriesUpTo n) (e.text.toList ++ rest) = .found e rest

/-- No layout stands in front of the text of an expression. -/
theorem IsReadable.skipLayout_text {e : Expr} (h : e.IsReadable) (rest : List Char) :
    skipLayout (e.text.toList ++ rest) = e.text.toList ++ rest := by
  obtain ⟨c, cs, hstart, hc⟩ := h.exists_start
  rw [hstart, List.cons_append, skipLayout_of_not_layout hc]

end Expr

/-- Where members end none are read. -/
theorem readEntriesUpTo_of_endsMembers {tail : List Char} (h : Text.EndsMembers tail) (n : Nat) :
    readEntriesUpTo n tail = .found [] tail := by
  cases n with
  | zero => rfl
  | succ n =>
    rcases h with rfl | ⟨rest, rfl⟩
    · rfl
    · rfl

/-- The first expression is read, then the others. -/
theorem readEntriesUpTo_cons {n : Nat} {e : Expr} {es : List Expr} {cs mid rest : List Char}
    (he : readEntry (readEntriesUpTo n) (skipLayout cs) = .found e mid)
    (hes : readEntriesUpTo n mid = .found es rest) :
    readEntriesUpTo (n + 1) cs = .found (e :: es) rest := by
  simp only [readEntriesUpTo, he, hes]
  rfl

section Members

variable {es : List Expr} (hes : ∀ e ∈ es, e.IsReadable)
include hes

/-- Members are read where they are written behind a parenthesis. -/
theorem readEntriesUpTo_spaced {tail : List Char} (htail : Text.EndsMembers tail) {n : Nat}
    (hn : (Text.spaced (Expr.texts es)).length ≤ n) :
    readEntriesUpTo n (Text.spaced (Expr.texts es) ++ tail) = .found es tail := by
  induction es generalizing n with
  | nil => exact readEntriesUpTo_of_endsMembers htail n
  | cons e es ih =>
    obtain ⟨he, hrest⟩ := List.forall_mem_cons.1 hes
    rw [Expr.texts, Text.spaced_cons, List.length_cons, List.length_append,
      String.length_toList] at hn
    obtain ⟨m, rfl⟩ : ∃ m, n = m + 1 := ⟨n - 1, by omega⟩
    rw [Expr.texts, Text.spaced_cons, List.cons_append, List.append_assoc]
    refine readEntriesUpTo_cons ?_ (ih hrest (by omega))
    rw [skipLayout_space, he.skipLayout_text]
    exact he.readEntry_text m _ (by omega) (Text.isCut_spaced_append _ htail.isCut)

/-- A group is read where it is written. -/
theorem readGroup_text {n : Nat} (hn : (Text.spaced (Expr.texts es)).length ≤ n)
    (rest : List Char) :
    readGroup (readEntriesUpTo n)
      ('(' :: (Text.spaced (Expr.texts es) ++ ' ' :: ')' :: rest)) = .found es rest := by
  rw [readGroup, readEntriesUpTo_spaced hes (Or.inr ⟨rest, rfl⟩) hn]
  rfl

/-- A group is read behind its operator from the texts of its members. -/
theorem readOperatorGroup_text (operator : String) {n : Nat}
    (hn : (Text.spaced (Expr.texts es)).length ≤ n) (rest : List Char) :
    readOperatorGroup (readEntriesUpTo n) operator (operator.toList ++
      ' ' :: '(' :: (Text.spaced (Expr.texts es) ++ ' ' :: ')' :: rest)) = .found es rest := by
  have hprefix : ∀ cs : List Char,
      operator.toList.isPrefixOf? (operator.toList ++ cs) = some cs :=
    fun cs => List.isPrefixOf?_eq_some_iff_append_eq.2 rfl
  simp only [readOperatorGroup, hprefix, skipLayout_space]
  rw [skipLayout_of_not_layout rfl, readGroup_text hes hn]
  rfl

/-- A conditional group is read behind its flag from the texts of its members. -/
theorem readConditional_text {flag : String} (hflag : IsFlagName flag.toList) (expect : Bool)
    {n : Nat} (hn : (Text.spaced (Expr.texts es)).length ≤ n) (rest : List Char) :
    readConditional (readEntriesUpTo n) ((if expect then "" else "!").toList ++ (flag.toList ++
      '?' :: ' ' :: '(' :: (Text.spaced (Expr.texts es) ++ ' ' :: ')' :: rest))) =
        .found (.useConditional flag expect es) rest := by
  simp only [readConditional, splitCondition?_conditionText hflag, skipLayout_space]
  rw [skipLayout_of_not_layout rfl, readGroup_text hes hn]
  rfl

end Members

/-! ## Expressions -/

/-- The text of a leaf is one token. -/
theorem isToken_leaf {a : Atom} (h : a.IsLegible) (blocking : Blocking) :
    IsToken 0 (blocking.text.toList ++ a.text.toList) := by
  rw [Blocking.toList_text]
  exact isToken_marks_iff.2 h.isToken_text

/-- A leaf begins with none of the marks of groups. -/
theorem exists_start_leaf {a : Atom} (h : a.IsLegible) (blocking : Blocking) :
    ∃ c cs, blocking.text.toList ++ a.text.toList = c :: cs ∧ c ∉ ['(', ')', '|', '^', '?'] := by
  obtain ⟨c, cs, hstart, hc⟩ := Atom.exists_start_text (Atom.isQualified_of_parse h.parse_text)
  cases blocking with
  | none =>
    refine ⟨c, cs, hstart, fun hmem => ?_⟩
    have hmarks : ['(', ')', '|', '^', '?'].any isAtomStart = false := by decide
    exact List.any_eq_false.1 hmarks c hmem hc
  | weak => exact ⟨'!', a.text.toList, rfl, by decide⟩
  | strong => exact ⟨'!', '!' :: a.text.toList, rfl, by decide⟩

/-- A leaf is read where it is written. -/
theorem readEntry_package {a : Atom} (h : a.IsLegible) (blocking : Blocking)
    (members : List Char → Reading (List Expr)) {rest : List Char} (hcut : Text.IsCut rest) :
    readEntry members (blocking.text.toList ++ a.text.toList ++ rest) =
      .found (.package a blocking) rest := by
  obtain ⟨c, cs, hstart, hc⟩ := exists_start_leaf h blocking
  have hleaf : readPackage (blocking.text.toList ++ a.text.toList ++ rest) =
      .found (.package a blocking) rest := by
    have hpackage := packageOfToken_text h blocking
    rw [readPackage, splitToken_append (isToken_leaf h blocking) hcut]
    rw [hstart] at hpackage ⊢
    simp only [hpackage]
  have hcondition : readConditional members (blocking.text.toList ++ a.text.toList ++ rest) =
      .absent := by
    rw [readConditional, List.append_assoc,
      splitCondition?_text (Atom.isQualified_of_parse h.parse_text)]
  rw [hstart, List.cons_append] at hleaf hcondition ⊢
  rw [readEntry_of_not_mark hc, hcondition, hleaf]
  rfl

namespace Expr

/-- The text of a group is at least as long as those of its members. -/
theorem length_spaced_le_groupText (operator : String) (members : List String) :
    (Text.spaced members).length ≤ (groupText operator members).length := by
  rw [← String.length_toList, toList_groupText, List.length_append, List.length_cons,
    List.length_append]
  omega

/-- A group behind an operator is readable when its members are. -/
theorem isReadable_operator (operator : String) {c : Char} {others : List Char}
    {group : List Expr → Expr} {es : List Expr}
    (hstart : operator.toList = c :: others) (hc : Text.isLayout c = false)
    (htext : (group es).text = groupText (operator ++ " ") (texts es))
    (hread : ∀ members cs, readEntry members (operator.toList ++ cs) =
      (readOperatorGroup members operator (operator.toList ++ cs)).map group)
    (hes : ∀ e ∈ es, e.IsReadable) : (group es).IsReadable := by
  have hchars : (group es).text.toList =
      operator.toList ++ ' ' :: '(' :: (Text.spaced (texts es) ++ [' ', ')']) := by
    rw [htext, toList_groupText, String.toList_append, List.append_assoc]
    rfl
  constructor
  · rw [hchars, hstart]
    exact ⟨c, _, rfl, hc⟩
  · intro n rest hn _
    rw [htext] at hn
    have hspaced := (length_spaced_le_groupText _ _).trans hn
    have hgroup := readOperatorGroup_text hes operator hspaced rest
    rw [hchars, List.append_assoc, hread]
    simp only [List.cons_append, List.append_assoc, List.nil_append, hgroup]
    rfl

/-- A legible expression is read where it is written. -/
theorem IsLegible.isReadable {e : Expr} (h : e.IsLegible) : e.IsReadable := by
  induction e with
  | allOf es ih =>
    have hes : ∀ e ∈ es, e.IsReadable := fun c hc => ih c hc (h.child hc)
    have hchars : (allOf es).text.toList = '(' :: (Text.spaced (texts es) ++ [' ', ')']) :=
      toList_groupText "" (texts es)
    refine ⟨⟨'(', _, hchars, rfl⟩, fun n rest hn _ => ?_⟩
    have hspaced := (length_spaced_le_groupText "" (texts es)).trans hn
    have hgroup := readGroup_text hes hspaced rest
    rw [hchars]
    simp only [List.cons_append, List.append_assoc, List.nil_append, readEntry, hgroup]
    rfl
  | anyOf es ih =>
    exact isReadable_operator "||" rfl rfl rfl (fun _ _ => rfl)
      fun c hc => ih c hc (h.child hc)
  | exactlyOneOf es ih =>
    exact isReadable_operator "^^" rfl rfl rfl (fun _ _ => rfl)
      fun c hc => ih c hc (h.child hc)
  | atMostOneOf es ih =>
    exact isReadable_operator "??" rfl rfl rfl (fun _ _ => rfl)
      fun c hc => ih c hc (h.child hc)
  | useConditional flag expect es ih =>
    have hes : ∀ e ∈ es, e.IsReadable := fun c hc => ih c hc (h.child hc)
    have hflag : IsFlagName flag.toList := h.head
    have hchars : (useConditional flag expect es).text.toList =
        (if expect then "" else "!").toList ++ (flag.toList ++
          '?' :: ' ' :: '(' :: (Text.spaced (texts es) ++ [' ', ')'])) := by
      rw [text, toList_groupText, conditionText]
      simp
    obtain ⟨c, cs, hstart, hc, hlayout⟩ : ∃ c cs,
        (if expect then "" else "!").toList ++ flag.toList = c :: cs ∧
          c ∉ ['(', ')', '|', '^', '?'] ∧ Text.isLayout c = false := by
      obtain ⟨c, cs, hname, hc, _⟩ := hflag
      cases expect with
      | true =>
        refine ⟨c, cs, hname, fun hmem => ?_, ?_⟩
        · have hmarks : ['(', ')', '|', '^', '?'].any Char.isAlphanum = false := by decide
          exact List.any_eq_false.1 hmarks c hmem hc
        · exact Text.isLayout_of_not_isBlank (Text.not_isBlank_of_isAlphanum hc)
      | false => exact ⟨'!', flag.toList, rfl, by decide, rfl⟩
    constructor
    · rw [hchars, ← List.append_assoc, hstart]
      exact ⟨c, _, rfl, hlayout⟩
    · intro n rest hn _
      have hspaced := (length_spaced_le_groupText _ (texts es)).trans hn
      have hgroup := readConditional_text hes hflag expect hspaced rest
      rw [hchars]
      simp only [List.append_assoc, List.cons_append, List.nil_append]
      rw [← List.append_assoc, hstart, List.cons_append] at hgroup ⊢
      rw [readEntry_of_not_mark hc, hgroup]
      rfl
  | package a blocking =>
    have ha : a.IsLegible := h.head
    have hchars : (package a blocking).text.toList = blocking.text.toList ++ a.text.toList :=
      String.toList_append
    constructor
    · obtain ⟨c, cs, hstart, _⟩ := exists_start_leaf ha blocking
      refine ⟨c, cs, hchars.trans hstart, Text.isLayout_of_not_isBlank ?_⟩
      exact isBlank_of_isToken (isToken_leaf ha blocking) c (by simp [hstart])
    · intro n rest _ hcut
      rw [hchars]
      exact readEntry_package ha blocking _ hcut

end Expr

/-! ## Values -/

namespace Spec

/-- A legible value is read as it is written. -/
theorem IsLegible.parse_text {d : Spec} (h : d.IsLegible) : parse d.text = .ok d := by
  obtain ⟨es⟩ := d
  cases es with
  | nil => rfl
  | cons e es =>
    obtain ⟨he, hes⟩ := List.forall_mem_cons.1 fun e he => Expr.IsLegible.isReadable (h e he)
    have hchars : (text ⟨e :: es⟩).toList = e.text.toList ++ Text.spaced (Expr.texts es) :=
      Text.toList_unwords_cons e.text (Expr.texts es)
    have hlength : (e.text.toList ++ Text.spaced (Expr.texts es)).length =
        e.text.length + (Text.spaced (Expr.texts es)).length := by
      rw [List.length_append, String.length_toList]
    have hmembers := readEntriesUpTo_spaced hes (Or.inl rfl)
      (n := (e.text.toList ++ Text.spaced (Expr.texts es)).length) (by omega)
    rw [List.append_nil] at hmembers
    have hentries : readEntries (text ⟨e :: es⟩).toList = .found (e :: es) [] := by
      rw [hchars]
      refine readEntriesUpTo_cons ?_ hmembers
      rw [he.skipLayout_text]
      refine he.readEntry_text _ _ (by omega) ?_
      exact List.append_nil (Text.spaced (Expr.texts es)) ▸
        Text.isCut_spaced_append _ Text.isCut_nil
    rw [parse, hentries]
    rfl

/-- A value that was read is legible, and its tokens are those of the text. -/
theorem sound_of_parse {s : String} {d : Spec} (h : parse s = .ok d) :
    d.IsLegible ∧ ∃ spellings, List.Forall₂ Token.IsSpelledAs d.tokens spellings ∧
      Text.squeeze s.toList = spellings.flatten := by
  unfold parse at h
  split at h
  · next children hcomplete =>
    cases h
    obtain ⟨rest, hfound, hrest⟩ := Outcome.complete_eq_ok_iff.1 hcomplete
    obtain ⟨hlegible, spellings, hspellings, hsqueeze⟩ :=
      readEntriesUpTo_sound _ _ _ _ hfound
    refine ⟨hlegible, spellings, hspellings, ?_⟩
    rw [hsqueeze, ← Text.squeeze_skipLayout rest, hrest]
    exact List.append_nil _
  · cases h

/-- Without blanks, a legible value is written as its tokens. -/
theorem IsLegible.squeeze_text {d : Spec} (h : d.IsLegible) :
    Text.squeeze d.text.toList = Token.joined d.tokens := by
  have hspaced := Expr.squeeze_spaced_texts fun e he => Expr.squeeze_text (h e he)
  obtain ⟨es⟩ := d
  cases es with
  | nil => rfl
  | cons e es =>
    have hchars : (text ⟨e :: es⟩).toList = e.text.toList ++ Text.spaced (Expr.texts es) :=
      Text.toList_unwords_cons e.text (Expr.texts es)
    rw [Expr.texts, Text.spaced_cons, Text.squeeze_space] at hspaced
    rw [hchars, hspaced]
    rfl

/-- Reading a value loses nothing but blanks and colons of empty slots: without blanks, the text
that was read spells the tokens of the value, and the value is written as these tokens.  The
value, and whatever becomes of it, is read as it is written. -/
theorem lossless_of_parse {s : String} {d : Spec} (h : parse s = .ok d) :
    (∃ spellings, List.Forall₂ Token.IsSpelledAs d.tokens spellings ∧
      Text.squeeze s.toList = spellings.flatten) ∧
      Text.squeeze d.text.toList = Token.joined d.tokens ∧
      ∀ x, d.LeadsTo x → parse x.text = .ok x := by
  obtain ⟨hlegible, hspells⟩ := sound_of_parse h
  exact ⟨hspells, hlegible.squeeze_text, fun x hx => (hx.isLegible hlegible).parse_text⟩

/-- No blanks are needed around parentheses, and the colon of an empty slot is dropped. -/
theorem writes_without_colon :
    ∃ d, parse "||(a/b:[x] !c/d)x?(e/f)" = .ok d ∧ d.text = "|| ( a/b[x] !c/d ) x? ( e/f )" ∧
      d.pickFirst.text = "a/b[x] x? ( e/f )" ∧ parse d.text = .ok d ∧
      parse d.pickFirst.text = .ok d.pickFirst := by
  have hparse : parse "||(a/b:[x] !c/d)x?(e/f)" = .ok
      ⟨[.anyOf [.package ⟨"a/b", none, "", ["x"]⟩ .none, .package (.ofName "c/d") .weak],
        .useConditional "x" true [.package (.ofName "e/f") .none]]⟩ := rfl
  obtain ⟨_, _, hread⟩ := lossless_of_parse hparse
  exact ⟨_, hparse, rfl, rfl, hread _ (.refl _), hread _ (.pickFirst (.refl _))⟩

end Spec
end Dependency
end EbuildGraph
