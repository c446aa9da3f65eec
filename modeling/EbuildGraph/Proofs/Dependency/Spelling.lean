import EbuildGraph.Proofs.Dependency.Legible

/-!
# How expressions are spelled

An expression is written token by token, and what is read is told by its tokens: without
blanks, the text that was read spells the tokens of the result one behind another.

Main definitions:

- {lit}`Expr.tokens`, {lit}`Spec.tokens`: the tokens of an expression and of a value.
- {lit}`Token.IsSpelledAs`: how a token may be spelled.
- {lit}`Spells`: what a part of the input spells.

Main results:

- Theorem {lit}`Expr.squeeze_text`: without blanks, a legible expression is its tokens.
- Theorem {lit}`readEntriesUpTo_sound`: what is read is legible, and its tokens are those of
  the text.
-/

namespace EbuildGraph
namespace Dependency

/-! ## Tokens -/

/-- A token of a written expression. -/
inductive Token where
  | mark (text : String)
  | package (atom : Atom) (blocking : Blocking)

namespace Token

/-- A token as it is written. -/
def text : Token → String
  | mark text => text
  | package atom blocking => blocking.text ++ atom.text

/-- Whether characters spell a token.  A colon may introduce an empty slot. -/
def IsSpelledAs : Token → List Char → Prop
  | mark text, cs => cs = text.toList
  | package atom blocking, cs =>
    cs = (blocking.text ++ atom.text).toList ∨ atom.slot = "" ∧
      cs = (blocking.text ++ (Atom.frontText atom.name atom.writtenBound ++ ":" ++
        Atom.useText atom.useDependencies)).toList

/-- The characters of tokens without blanks between them. -/
def joined (tokens : List Token) : List Char :=
  tokens.flatMap fun t => t.text.toList

theorem joined_append (ts us : List Token) : joined (ts ++ us) = joined ts ++ joined us :=
  List.flatMap_append

/-- The tokens of a group with the given tokens before and between its parentheses. -/
def group (heading members : List Token) : List Token :=
  heading ++ mark "(" :: (members ++ [mark ")"])

end Token

namespace Expr

/-- The token of the condition on a flag. -/
def conditionMark (flag : String) (expect : Bool) : Token :=
  .mark ((if expect then "" else "!") ++ flag ++ "?")

mutual

/-- The tokens of an expression. -/
def tokens : Expr → List Token
  | allOf children => Token.group [] (tokensOfAll children)
  | anyOf children => Token.group [.mark "||"] (tokensOfAll children)
  | exactlyOneOf children => Token.group [.mark "^^"] (tokensOfAll children)
  | atMostOneOf children => Token.group [.mark "??"] (tokensOfAll children)
  | useConditional flag expect children =>
    Token.group [conditionMark flag expect] (tokensOfAll children)
  | package atom blocking => [.package atom blocking]

/-- The tokens of expressions, one behind another. -/
def tokensOfAll : List Expr → List Token
  | [] => []
  | e :: rest => e.tokens ++ tokensOfAll rest

end

end Expr

/-- The tokens of a value. -/
def Spec.tokens (d : Spec) : List Token :=
  Expr.tokensOfAll d.children

/-! ## Characters of flags -/

/-- No character of a flag is blank. -/
theorem not_isBlank_of_isUseFlagChar {c : Char} (h : isUseFlagChar c = true) :
    Text.isBlank c = false := by
  simp only [isUseFlagChar, Bool.or_eq_true, beq_iff_eq] at h
  rcases h with (((h | rfl) | rfl) | rfl) | rfl
  · exact Text.not_isBlank_of_isAlphanum h
  all_goals decide

theorem IsFlagName.not_isBlank {cs : List Char} (h : IsFlagName cs) :
    ∀ c ∈ cs, Text.isBlank c = false := by
  obtain ⟨c, rest, rfl, hc, hrest⟩ := h
  refine List.forall_mem_cons.2 ⟨Text.not_isBlank_of_isAlphanum hc, fun d hd => ?_⟩
  exact not_isBlank_of_isUseFlagChar (List.all_eq_true.1 hrest d hd)

/-! ## The text of a group -/

namespace Expr

/-- A group is its operator, a parenthesis, each member behind a space, and another space
before the closing parenthesis. -/
theorem toList_groupText (operator : String) (members : List String) :
    (groupText operator members).toList =
      operator.toList ++ '(' :: (Text.spaced members ++ [' ', ')']) := by
  rw [groupText, String.toList_append]
  cases members with
  | nil => rfl
  | cons text texts =>
    have hunwords := Text.toList_unwords_cons text texts
    rw [Text.unwords] at hunwords
    simp [hunwords]

/-- Without its blanks the text of a group is its heading and its members between parentheses. -/
theorem squeeze_groupText {operator : String} {heading : List Token} {es : List Expr}
    (hoperator : Text.squeeze operator.toList = Token.joined heading)
    (hmembers : Text.squeeze (Text.spaced (texts es)) = Token.joined (tokensOfAll es)) :
    Text.squeeze (groupText operator (texts es)).toList =
      Token.joined (Token.group heading (tokensOfAll es)) := by
  have hopen : Text.isBlank '(' = false := by decide
  rw [toList_groupText, Text.squeeze_append, Text.squeeze_cons_of_not_isBlank hopen,
    Text.squeeze_append, hoperator, hmembers, Token.group, Token.joined_append]
  exact congrArg (_ ++ '(' :: ·) (Token.joined_append (tokensOfAll es) [.mark ")"]).symm

/-- Without blanks the texts of expressions are their tokens, one after another. -/
theorem squeeze_spaced_texts {es : List Expr}
    (h : ∀ e ∈ es, Text.squeeze e.text.toList = Token.joined e.tokens) :
    Text.squeeze (Text.spaced (texts es)) = Token.joined (tokensOfAll es) := by
  induction es with
  | nil => rfl
  | cons e rest ih =>
    obtain ⟨he, hrest⟩ := List.forall_mem_cons.1 h
    rw [texts, Text.spaced_cons, Text.squeeze_space, Text.squeeze_append, he, ih hrest,
      tokensOfAll, Token.joined_append]

/-- Without blanks the text of a condition is its mark. -/
theorem squeeze_conditionText {flag : String} (h : IsFlagName flag.toList) (expect : Bool) :
    Text.squeeze (conditionText flag expect).toList =
      Token.joined [conditionMark flag expect] := by
  have hflag : Text.squeeze flag.toList = flag.toList := Text.squeeze_eq_self h.not_isBlank
  have hmark : Text.squeeze (if expect then "" else "!").toList =
      (if expect then "" else "!").toList := by
    cases expect <;> rfl
  have hend : Text.squeeze "? ".toList = "?".toList := rfl
  rw [conditionText, String.toList_append, String.toList_append, Text.squeeze_append,
    Text.squeeze_append, hmark, hflag, hend]
  simp [conditionMark, Token.joined, Token.text]

/-- Without blanks, the text of a legible expression is its tokens. -/
theorem squeeze_text {e : Expr} (h : e.IsLegible) :
    Text.squeeze e.text.toList = Token.joined e.tokens := by
  induction e with
  | allOf es ih | anyOf es ih | exactlyOneOf es ih | atMostOneOf es ih =>
    exact squeeze_groupText rfl (squeeze_spaced_texts fun c hc => ih c hc (h.child hc))
  | useConditional flag expect es ih =>
    exact squeeze_groupText (squeeze_conditionText h.head expect)
      (squeeze_spaced_texts fun c hc => ih c hc (h.child hc))
  | package a blocking =>
    have hmarks : Text.squeeze blocking.text.toList = blocking.text.toList := by
      cases blocking <;> rfl
    have ha : Text.squeeze a.text.toList = a.text.toList :=
      Text.squeeze_eq_self (isBlank_of_isToken h.head.isToken_text)
    rw [text, String.toList_append, Text.squeeze_append, hmarks, ha]
    simp [tokens, Token.joined, Token.text]

end Expr

/-! ## What rules read -/

/-- Whether the input up to the rest spells tokens, blanks aside. -/
def Spells (tokens : List Token) (cs rest : List Char) : Prop :=
  ∃ spellings, List.Forall₂ Token.IsSpelledAs tokens spellings ∧
    Text.squeeze cs = spellings.flatten ++ Text.squeeze rest

namespace Spells

theorem refl (cs : List Char) : Spells [] cs cs :=
  ⟨[], .nil, rfl⟩

/-- What is spelled up to some point goes on with what is spelled from there. -/
theorem trans {ts us : List Token} {cs mid rest : List Char} (h : Spells ts cs mid)
    (h' : Spells us mid rest) : Spells (ts ++ us) cs rest := by
  obtain ⟨xs, hxs, hcs⟩ := h
  obtain ⟨ys, hys, hmid⟩ := h'
  refine ⟨xs ++ ys, List.rel_append hxs hys, ?_⟩
  rw [hcs, hmid, List.flatten_append, List.append_assoc]

/-- Layout in front of what is spelled does not count. -/
theorem of_skipLayout {ts : List Token} {cs rest : List Char}
    (h : Spells ts (skipLayout cs) rest) : Spells ts cs rest := by
  obtain ⟨xs, hxs, hcs⟩ := h
  exact ⟨xs, hxs, by rw [← hcs, Text.squeeze_skipLayout]⟩

/-- Layout behind what is spelled does not count. -/
theorem skipLayout_right {ts : List Token} {cs rest : List Char} (h : Spells ts cs rest) :
    Spells ts cs (skipLayout rest) := by
  obtain ⟨xs, hxs, hcs⟩ := h
  exact ⟨xs, hxs, by rw [hcs, Text.squeeze_skipLayout]⟩

/-- A token without blanks is spelled in front of what follows it. -/
theorem token {t : Token} {cs : List Char} (ht : t.IsSpelledAs cs)
    (hcs : ∀ c ∈ cs, Text.isBlank c = false) (rest : List Char) :
    Spells [t] (cs ++ rest) rest := by
  refine ⟨[cs], .cons ht .nil, ?_⟩
  rw [Text.squeeze_append, Text.squeeze_eq_self hcs, List.flatten_singleton]

end Spells

/-- Whether a rule for the members of groups finds legible expressions and nothing but their
tokens. -/
def IsSound (members : List Char → Reading (List Expr)) : Prop :=
  ∀ cs es rest, members cs = .found es rest →
    (∀ e ∈ es, e.IsLegible) ∧ Spells (Expr.tokensOfAll es) cs rest

/-- What a condition was split off from is its mark, its flag and a question mark. -/
theorem eq_append_of_splitCondition {cs after : List Char} {expect : Bool} {flag : String}
    (h : splitCondition? cs = some (expect, flag, after)) :
    IsFlagName flag.toList ∧
      cs = ((if expect then "" else "!") ++ flag ++ "?").toList ++ after := by
  have hsplit : ∀ {c : Char} {rest : List Char}, c.isAlphanum = true →
      rest.dropWhile isUseFlagChar = '?' :: after →
      flag = String.ofList (c :: rest.takeWhile isUseFlagChar) →
      IsFlagName flag.toList ∧ c :: rest = flag.toList ++ '?' :: after := by
    rintro c rest hc hafter rfl
    rw [String.toList_ofList]
    refine ⟨⟨c, _, rfl, hc, List.all_takeWhile⟩, ?_⟩
    rw [List.cons_append, ← hafter, List.takeWhile_append_dropWhile]
  unfold splitCondition? at h
  split at h
  next sign flagged hsign =>
  split at h
  · cases h
  next c rest =>
  split at h
  · next hc =>
    split at h
    · next hafter =>
      simp only [Option.some.injEq, Prod.mk.injEq] at h
      obtain ⟨rfl, hflag, rfl⟩ := h
      obtain ⟨hname, heq⟩ := hsplit hc hafter hflag.symm
      refine ⟨hname, ?_⟩
      split at hsign
      · cases hsign
        simp [heq]
      · cases hsign
        simp [heq]
    · cases h
  · cases h

section Rules

variable {members : List Char → Reading (List Expr)} (hmembers : IsSound members)
  {cs rest : List Char}
include hmembers

/-- A group that was read is legible and spelled as it was read. -/
theorem readGroup_sound {es : List Expr} (h : readGroup members cs = .found es rest) :
    (∀ e ∈ es, e.IsLegible) ∧ Spells (Token.group [] (Expr.tokensOfAll es)) cs rest := by
  unfold readGroup at h
  split at h
  · next inner =>
    obtain ⟨children, mid, hfound, hclose⟩ := Outcome.andThen_eq_found_iff.1 h
    split at hclose
    · next behind hmid =>
      cases hclose
      obtain ⟨hes, hspells⟩ := hmembers inner es mid hfound
      refine ⟨hes, ?_⟩
      have hopen : Spells [.mark "("] ('(' :: inner) inner :=
        Spells.token (t := .mark "(") rfl (List.forall_mem_singleton.2 (by decide)) inner
      have hclosing : Spells [.mark ")"] (skipLayout mid) rest := by
        rw [hmid]
        exact Spells.token (t := .mark ")") rfl (List.forall_mem_singleton.2 (by decide)) rest
      exact hopen.trans (hspells.skipLayout_right.trans hclosing)
    · cases hclose
  · cases h

/-- A group that was read behind an operator is legible and spelled behind it. -/
theorem readOperatorGroup_sound {operator : String} {es : List Expr}
    (hoperator : operator.toList.any Text.isBlank = false)
    (h : readOperatorGroup members operator cs = .found es rest) :
    (∀ e ∈ es, e.IsLegible) ∧
      Spells (Token.group [.mark operator] (Expr.tokensOfAll es)) cs rest := by
  unfold readOperatorGroup at h
  split at h
  · cases h
  next behind hprefix =>
  obtain ⟨hes, hspells⟩ := readGroup_sound hmembers (Outcome.required_eq_found_iff.1 h)
  refine ⟨hes, ?_⟩
  have hblank : ∀ c ∈ operator.toList, Text.isBlank c = false :=
    fun c hc => Bool.eq_false_iff.2 (List.any_eq_false.1 hoperator c hc)
  rw [← List.append_eq_of_isPrefixOf?_eq_some hprefix]
  exact (Spells.token (t := .mark operator) rfl hblank behind).trans hspells.of_skipLayout

/-- A conditional group that was read is legible and spelled as it was read. -/
theorem readConditional_sound {e : Expr} (h : readConditional members cs = .found e rest) :
    e.IsLegible ∧ Spells e.tokens cs rest := by
  unfold readConditional at h
  split at h
  · cases h
  next expect flag after hcondition =>
  obtain ⟨es, hgroup, rfl⟩ := Outcome.map_eq_found_iff.1 h
  obtain ⟨hes, hspells⟩ := readGroup_sound hmembers (Outcome.required_eq_found_iff.1 hgroup)
  obtain ⟨hflag, hcs⟩ := eq_append_of_splitCondition hcondition
  refine ⟨Expr.isLegible_group hflag rfl hes, ?_⟩
  have hblank : ∀ c ∈ ((if expect then "" else "!") ++ flag ++ "?").toList,
      Text.isBlank c = false := by
    simp only [String.toList_append, List.mem_append]
    rintro c ((hc | hc) | hc)
    · cases expect
      · exact List.mem_singleton.1 hc ▸ rfl
      · cases hc
    · exact hflag.not_isBlank c hc
    · exact List.mem_singleton.1 hc ▸ rfl
  rw [hcs]
  exact (Spells.token (t := Expr.conditionMark flag expect) rfl hblank after).trans
    hspells.of_skipLayout

omit hmembers in
/-- A leaf that was read is legible and spelled as it was read. -/
theorem readPackage_sound {e : Expr} (h : readPackage cs = .found e rest) :
    e.IsLegible ∧ Spells e.tokens cs rest := by
  unfold readPackage at h
  split at h
  · cases h
  next token behind _ hsplit =>
  split at h
  · next hpackage =>
    cases h
    obtain ⟨rfl, htoken⟩ := eq_append_of_splitToken hsplit
    obtain ⟨a, blocking, s, rfl, hs, hword, hparse⟩ := exists_of_packageOfToken htoken hpackage
    refine ⟨Expr.isLegible_group (isLegible_of_parse hword hparse) rfl nofun, ?_⟩
    refine Spells.token ?_ (isBlank_of_isToken htoken) rest
    rw [hs, ← String.toList_append]
    exact (Atom.text_of_parse hparse).imp (fun heq => by rw [heq])
      fun ⟨hempty, heq⟩ => ⟨hempty, by rw [heq]⟩
  · cases h

/-- An expression of any kind that was read is legible and spelled as it was read. -/
theorem readEntry_sound {e : Expr} (h : readEntry members cs = .found e rest) :
    e.IsLegible ∧ Spells e.tokens cs rest := by
  have hoperator : ∀ {operator : String} {es : List Expr},
      operator.toList.any Text.isBlank = false →
      readOperatorGroup members operator cs = .found es rest →
      (∀ e ∈ es, e.IsLegible) ∧
        Spells (Token.group [.mark operator] (Expr.tokensOfAll es)) cs rest :=
    readOperatorGroup_sound hmembers
  unfold readEntry at h
  split at h
  · cases h
  · obtain ⟨es, hgroup, rfl⟩ := Outcome.map_eq_found_iff.1 h
    obtain ⟨hes, hspells⟩ := readGroup_sound hmembers hgroup
    exact ⟨Expr.isLegible_group trivial rfl hes, hspells⟩
  · cases h
  · obtain ⟨es, hgroup, rfl⟩ := Outcome.map_eq_found_iff.1 h
    obtain ⟨hes, hspells⟩ := hoperator (by decide) hgroup
    exact ⟨Expr.isLegible_group trivial rfl hes, hspells⟩
  · obtain ⟨es, hgroup, rfl⟩ := Outcome.map_eq_found_iff.1 h
    obtain ⟨hes, hspells⟩ := hoperator (by decide) hgroup
    exact ⟨Expr.isLegible_group trivial rfl hes, hspells⟩
  · obtain ⟨es, hgroup, rfl⟩ := Outcome.map_eq_found_iff.1 h
    obtain ⟨hes, hspells⟩ := hoperator (by decide) hgroup
    exact ⟨Expr.isLegible_group trivial rfl hes, hspells⟩
  · rcases Outcome.orElse_eq_found_iff.1 h with hfound | ⟨_, hfound⟩
    · exact readConditional_sound hmembers hfound
    · exact readPackage_sound hfound

end Rules

/-- What is read is legible, and its tokens are those of the text. -/
theorem readEntriesUpTo_sound (n : Nat) : IsSound (readEntriesUpTo n) := by
  induction n with
  | zero =>
    rintro cs es rest ⟨⟩
    exact ⟨nofun, Spells.refl cs⟩
  | succ n ih =>
    intro cs es rest h
    rw [readEntriesUpTo] at h
    split at h
    · next e mid hentry =>
      obtain ⟨others, hothers, rfl⟩ := Outcome.map_eq_found_iff.1 h
      obtain ⟨he, hspells⟩ := readEntry_sound ih hentry
      obtain ⟨hes, hrest⟩ := ih mid others rest hothers
      exact ⟨List.forall_mem_cons.2 ⟨he, hes⟩, hspells.of_skipLayout.trans hrest⟩
    · cases h
      exact ⟨nofun, Spells.refl _⟩
    · cases h

end Dependency
end EbuildGraph
