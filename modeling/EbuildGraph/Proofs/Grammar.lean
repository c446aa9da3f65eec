import EbuildGraph.Grammar
import EbuildGraph.Text.Split
import Mathlib.Data.List.Basic

/-!
# What rules of grammars find

A rule that found something is taken apart into the rules it is made of, as a successful step
is taken apart into the steps before it.  Grammars skip layout between the parts of a text and
texts are written with single spaces there, so a text is compared without its blanks, and what
is written in a list begins with a space.

Main definitions:

- {lit}`Text.squeeze`: characters without the blanks among them.
- {lit}`Text.spaced`: texts as they are written one behind another.
- {lit}`Text.IsCut`: what may follow a part that is written with a space behind it.
- {lit}`Text.EndsMembers`: what may follow the members of a group, or all of a text.

Main results:

- Theorems {lit}`Outcome.map_eq_found_iff`, {lit}`Outcome.andThen_eq_found_iff`,
  {lit}`Outcome.orElse_eq_found_iff` and {lit}`Outcome.complete_eq_ok_iff`: what was found in
  terms of the parts of a rule.
-/

namespace EbuildGraph

/-! ## Parts of rules -/

namespace Outcome

variable {ε α β : Type}

/-- What is made of a value is found where the value is. -/
theorem map_eq_found_iff {o : Outcome ε α} {f : α → β} {value : β} {rest : List Char} :
    o.map f = found value rest ↔ ∃ a, o = found a rest ∧ f a = value := by
  cases o with
  | found a mid =>
    simp only [map, found.injEq]
    constructor
    · rintro ⟨hvalue, rfl⟩
      exact ⟨a, ⟨rfl, rfl⟩, hvalue⟩
    · rintro ⟨_, ⟨rfl, rfl⟩, hvalue⟩
      exact ⟨hvalue, rfl⟩
  | absent => simp [map]
  | broken fault mid => simp [map]

/-- A value is found by two rules when the second finds it behind what the first does. -/
theorem andThen_eq_found_iff {o : Outcome ε α} {next : α → List Char → Outcome ε β} {value : β}
    {rest : List Char} :
    o.andThen next = found value rest ↔
      ∃ a mid, o = found a mid ∧ next a mid = found value rest := by
  cases o with
  | found a mid =>
    constructor
    · intro h
      exact ⟨a, mid, rfl, h⟩
    · rintro ⟨_, _, heq, h⟩
      cases heq
      exact h
  | absent => simp [andThen]
  | broken fault mid => simp [andThen]

/-- A value is found by one of two rules when the first finds it, or is absent and the second does.
-/
theorem orElse_eq_found_iff {o other : Outcome ε α} {value : α} {rest : List Char} :
    o.orElse other = found value rest ↔
      o = found value rest ∨ o = absent ∧ other = found value rest := by
  cases o <;> simp [orElse]

/-- What has to be found is found where it is. -/
theorem required_eq_found_iff {o : Outcome ε α} {fault : ε} {input rest : List Char} {value : α} :
    o.required fault input = found value rest ↔ o = found value rest := by
  cases o <;> simp [required]

/-- A value is found whatever becomes of faults. -/
theorem mapFault_eq_found_iff {o : Outcome ε α} {f : ε → ε} {value : α} {rest : List Char} :
    o.mapFault f = found value rest ↔ o = found value rest := by
  cases o <;> simp [mapFault]

/-- A text is read as a whole when only layout is left behind what is found. -/
theorem complete_eq_ok_iff {o : Outcome ExpressionStop α} {input : List Char} {value : α} :
    o.complete input = .ok value ↔ ∃ rest, o = found value rest ∧ skipLayout rest = [] := by
  cases o with
  | found a mid =>
    cases hmid : skipLayout mid with
    | nil =>
      simp only [complete, hmid, Except.ok.injEq, found.injEq]
      constructor
      · rintro rfl
        exact ⟨mid, ⟨rfl, rfl⟩, hmid⟩
      · rintro ⟨_, ⟨hvalue, _⟩, _⟩
        exact hvalue
    | cons c cs =>
      simp only [complete, hmid, found.injEq, reduceCtorEq, false_iff]
      rintro ⟨_, ⟨_, rfl⟩, hrest⟩
      rw [hmid] at hrest
      cases hrest
  | absent => simp [complete]
  | broken fault mid => simp [complete]

end Outcome

/-! ## Layout -/

theorem skipLayout_space (cs : List Char) : skipLayout (' ' :: cs) = skipLayout cs :=
  List.dropWhile_cons_of_pos (by decide)

theorem skipLayout_of_not_layout {c : Char} (h : Text.isLayout c = false) (cs : List Char) :
    skipLayout (c :: cs) = c :: cs :=
  List.dropWhile_cons_of_neg (by simp [h])

namespace Text

/-! ## Blank characters -/

/-- What is not blank is no layout. -/
theorem isLayout_of_not_isBlank {c : Char} (h : isBlank c = false) : isLayout c = false :=
  Bool.eq_false_iff.2 fun hlayout => Bool.eq_false_iff.1 h (isBlank_of_isLayout hlayout)

/-- No letter or digit is blank. -/
theorem not_isBlank_of_isAlphanum {c : Char} (h : c.isAlphanum = true) : isBlank c = false := by
  have hrange : (65 ≤ c.toNat ∧ c.toNat ≤ 90 ∨ 97 ≤ c.toNat ∧ c.toNat ≤ 122) ∨
      48 ≤ c.toNat ∧ c.toNat ≤ 57 := by
    rcases Bool.or_eq_true_iff.1 h with halpha | hdigit
    · rcases Bool.or_eq_true_iff.1 halpha with hupper | hlower
      · exact Or.inl (Or.inl (of_decide_eq_true hupper))
      · obtain ⟨hlow, hhigh⟩ := Bool.and_eq_true_iff.1 hlower
        exact Or.inl (Or.inr ⟨of_decide_eq_true hlow, of_decide_eq_true hhigh⟩)
    · exact Or.inr (Char.isDigit_iff_toNat.1 hdigit)
  rw [Bool.eq_false_iff]
  intro hblank
  simp only [isBlank, Bool.or_eq_true, Bool.and_eq_true, decide_eq_true_eq, beq_iff_eq] at hblank
  omega

/-! ## Texts without blanks -/

/-- The characters that are not blank. -/
def squeeze (cs : List Char) : List Char :=
  cs.filter fun c => !isBlank c

/-- Blanks are left out of each of two texts. -/
theorem squeeze_append (cs ds : List Char) : squeeze (cs ++ ds) = squeeze cs ++ squeeze ds :=
  List.filter_append ..

theorem squeeze_cons_of_not_isBlank {c : Char} (h : isBlank c = false) (cs : List Char) :
    squeeze (c :: cs) = c :: squeeze cs :=
  List.filter_cons_of_pos (by simp [h])

theorem squeeze_space (cs : List Char) : squeeze (' ' :: cs) = squeeze cs :=
  List.filter_cons_of_neg (by decide)

/-- A text without blanks stays as it is. -/
theorem squeeze_eq_self {cs : List Char} (h : ∀ c ∈ cs, isBlank c = false) : squeeze cs = cs :=
  List.filter_eq_self.2 fun c hc => by simp [h c hc]

/-- Layout is blank. -/
theorem squeeze_skipLayout (cs : List Char) : squeeze (skipLayout cs) = squeeze cs := by
  induction cs with
  | nil => rfl
  | cons c cs ih =>
    by_cases hc : isLayout c = true
    · have hblank : isBlank c = true := isBlank_of_isLayout hc
      rw [skipLayout, List.dropWhile_cons_of_pos hc, ← skipLayout, ih, squeeze, squeeze,
        List.filter_cons_of_neg (by simp [hblank])]
    · rw [skipLayout_of_not_layout (by simpa using hc)]

/-! ## Texts written one behind another -/

/-- Texts as they are written one behind another, a space before each. -/
def spaced (texts : List String) : List Char :=
  texts.flatMap fun text => ' ' :: text.toList

@[simp]
theorem spaced_nil : spaced [] = [] :=
  rfl

@[simp]
theorem spaced_cons (text : String) (texts : List String) :
    spaced (text :: texts) = ' ' :: (text.toList ++ spaced texts) :=
  rfl

/-- Texts joined with spaces have one between each and the next. -/
theorem toList_unwords_cons (text : String) (texts : List String) :
    (unwords (text :: texts)).toList = text.toList ++ spaced texts := by
  have hchars : ∀ (first : List Char) (rest : List String),
      [' '].intercalate (first :: rest.map String.toList) = first ++ spaced rest := by
    intro first rest
    induction rest generalizing first with
    | nil => simp
    | cons second rest ih =>
      rw [List.map_cons, List.intercalate_cons_cons, ih]
      simp
  rw [unwords, String.toList_intercalate]
  exact hchars text.toList texts

/-- Whether nothing follows or a space does. -/
def IsCut (rest : List Char) : Prop :=
  ∀ c ∈ rest.head?, c = ' '

theorem isCut_nil : IsCut [] :=
  nofun

theorem isCut_space (cs : List Char) : IsCut (' ' :: cs) := by
  rintro c ⟨⟩
  rfl

/-- Behind texts with a space before each a text is cut as it is behind none. -/
theorem isCut_spaced_append (texts : List String) {tail : List Char} (h : IsCut tail) :
    IsCut (spaced texts ++ tail) := by
  cases texts with
  | nil => exact h
  | cons text texts => exact isCut_space _

/-- Whether the members of a group end before characters, or the input does. -/
def EndsMembers (tail : List Char) : Prop :=
  tail = [] ∨ ∃ rest, tail = ' ' :: ')' :: rest

/-- Where members end a text is cut. -/
theorem EndsMembers.isCut {tail : List Char} (h : EndsMembers tail) : IsCut tail := by
  rcases h with rfl | ⟨rest, rfl⟩
  · exact isCut_nil
  · exact isCut_space _

end Text
end EbuildGraph
