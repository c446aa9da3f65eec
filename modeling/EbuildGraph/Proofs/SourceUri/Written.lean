import EbuildGraph.Proofs.Grammar
import EbuildGraph.Proofs.Text.Runs
import EbuildGraph.SourceUri.Parser
import Mathlib.Data.List.Chain

/-!
# Source addresses that were read

What is read obeys rules that its written form relies on: addresses, file names and flags are
runs of the characters that they may hold, an address that is stored under another name is not
spelled like the condition on a flag, and an address that is not is followed by no arrow.

Main definitions:

- {lit}`LooksConditional`: whether an address is spelled like the condition on a flag.
- {lit}`Entry.IsWritten`, {lit}`AreWritten`: the rules for entries and for lists of them.

Main results:

- Theorem {lit}`splitCondition_address`: an address is taken for a condition when it looks like
  one and something follows.
- Theorem {lit}`areWritten_of_parse`: what was read obeys the rules.
-/

namespace EbuildGraph
namespace SourceUri

/-! ## Runs of characters -/

/-- Whether characters are some characters of a class. -/
def IsRunOf (p : Char → Bool) (cs : List Char) : Prop :=
  cs ≠ [] ∧ ∀ c ∈ cs, p c = true

section Runs

variable {p : Char → Bool} {cs rest : List Char}

theorem isRunOf_takeWhile (h : cs.takeWhile p ≠ []) : IsRunOf p (cs.takeWhile p) :=
  ⟨h, List.all_eq_true.1 List.all_takeWhile⟩

theorem IsRunOf.takeWhile_append (h : IsRunOf p cs) (hrest : ∀ c ∈ rest.head?, p c = false) :
    (cs ++ rest).takeWhile p = cs :=
  Text.takeWhile_append_of_head h.2 hrest

theorem IsRunOf.dropWhile_append (h : IsRunOf p cs) (hrest : ∀ c ∈ rest.head?, p c = false) :
    (cs ++ rest).dropWhile p = rest :=
  Text.dropWhile_append_of_head h.2 hrest

/-- A class of characters without the space ends where a space follows. -/
theorem head_of_isCut (hspace : p ' ' = false) (hcut : Text.IsCut rest) :
    ∀ c ∈ rest.head?, p c = false :=
  fun c hc => hcut c hc ▸ hspace

end Runs

/-! ## Conditions -/

/-- The condition on a flag up to its question mark. -/
def conditionChars (negated : Bool) (flag : List Char) : List Char :=
  (if negated then ['!'] else []) ++ (flag ++ ['?'])

/-- Whether an address is spelled like the condition on a flag. -/
def LooksConditional (url : List Char) : Prop :=
  ∃ negated flag, IsRunOf isUseFlagChar flag ∧ url = conditionChars negated flag

theorem not_isBlank_of_isUseFlagChar {c : Char} (h : isUseFlagChar c = true) :
    Text.isBlank c = false := by
  simp only [isUseFlagChar, Bool.or_eq_true, beq_iff_eq] at h
  rcases h with (((h | rfl) | rfl) | rfl) | rfl
  · exact Text.not_isBlank_of_isAlphanum h
  all_goals decide

theorem not_isBlank_of_isUrlChar {c : Char} (h : isUrlChar c = true) :
    Text.isBlank c = false := by
  simp only [isUrlChar, Bool.and_eq_true, Bool.not_eq_true'] at h
  exact h.1.1

theorem not_isBlank_conditionChars {flag : List Char} (h : IsRunOf isUseFlagChar flag)
    (negated : Bool) : ∀ c ∈ conditionChars negated flag, Text.isBlank c = false := by
  intro c hc
  rcases List.mem_append.1 hc with hc | hc
  · cases negated with
    | true => exact List.mem_singleton.1 hc ▸ rfl
    | false => cases hc
  rcases List.mem_append.1 hc with hc | hc
  · exact not_isBlank_of_isUseFlagChar (h.2 c hc)
  · exact List.mem_singleton.1 hc ▸ rfl

/-- A condition is found before a blank. -/
theorem splitCondition?_conditionChars {flag : List Char} (h : IsRunOf isUseFlagChar flag)
    (negated : Bool) {blank : Char} (hblank : Text.isBlank blank = true) (rest : List Char) :
    splitCondition? (conditionChars negated flag ++ blank :: rest) =
      some (negated, String.ofList flag, blank :: rest) := by
  have hmark : ∀ c ∈ ('?' :: blank :: rest).head?, isUseFlagChar c = false := by
    rintro c ⟨⟩
    rfl
  have htake := h.takeWhile_append hmark
  have hdrop := h.dropWhile_append hmark
  have hchars : conditionChars negated flag ++ blank :: rest =
      (if negated then ['!'] else []) ++ (flag ++ '?' :: blank :: rest) := by
    simp [conditionChars]
  obtain ⟨c, others, hflag⟩ := List.exists_cons_of_ne_nil h.1
  have hne : c ≠ '!' := by
    rintro rfl
    have hfalse := h.2 '!' (by simp [hflag])
    cases hfalse
  unfold splitCondition?
  split
  next sign flagged hsign =>
  obtain ⟨rfl, rfl⟩ : sign = negated ∧ flagged = flag ++ '?' :: blank :: rest := by
    rw [hchars] at hsign
    cases negated with
    | true =>
      cases hsign
      exact ⟨rfl, rfl⟩
    | false =>
      split at hsign
      · next heq =>
        rw [hflag] at heq
        exact absurd (List.cons.inj heq).1 hne
      · cases hsign
        exact ⟨rfl, rfl⟩
  rw [htake, hdrop, hflag]
  exact if_pos hblank

/-- What a condition was found in is the condition and what follows, a blank at first. -/
theorem eq_append_of_splitCondition {cs after : List Char} {negated : Bool} {flag : String}
    (h : splitCondition? cs = some (negated, flag, after)) :
    IsRunOf isUseFlagChar flag.toList ∧ cs = conditionChars negated flag.toList ++ after ∧
      ∃ blank rest, after = blank :: rest ∧ Text.isBlank blank = true := by
  unfold splitCondition? at h
  split at h
  next sign flagged hsign =>
  split at h
  · next c others blank rest htake hdrop =>
    split at h
    · next hblank =>
      simp only [Option.some.injEq, Prod.mk.injEq] at h
      obtain ⟨rfl, rfl, rfl⟩ := h
      have hrun : IsRunOf isUseFlagChar (c :: others) := by
        rw [← htake]
        exact isRunOf_takeWhile (by rw [htake]; exact List.cons_ne_nil c others)
      have hflagged : flagged = c :: others ++ '?' :: blank :: rest := by
        rw [← htake, ← hdrop, List.takeWhile_append_dropWhile]
      rw [String.toList_ofList]
      refine ⟨hrun, ?_, blank, rest, rfl, hblank⟩
      split at hsign
      · cases hsign
        simp [hflagged, conditionChars]
      · cases hsign
        simp [hflagged, conditionChars]
    · cases h
  · cases h

/-- An address is taken for a condition when it looks like one and a space follows. -/
theorem splitCondition_address {url rest : List Char} (hurl : IsRunOf isUrlChar url)
    (hcut : Text.IsCut rest) :
    splitCondition? (url ++ rest) = none ↔ (rest ≠ [] → ¬ LooksConditional url) := by
  constructor
  · rintro hnone hrest ⟨negated, flag, hflag, rfl⟩
    obtain ⟨c, others, rfl⟩ := List.exists_cons_of_ne_nil hrest
    obtain rfl : c = ' ' := hcut c rfl
    rw [splitCondition?_conditionChars hflag negated rfl] at hnone
    cases hnone
  · intro h
    rw [Option.eq_none_iff_forall_ne_some]
    rintro ⟨negated, flag, after⟩ hsome
    obtain ⟨hflag, heq, blank, others, rfl, hblank⟩ := eq_append_of_splitCondition hsome
    -- Both are all that stands before the first blank.
    have hsame : url = conditionChars negated flag.toList := by
      have hwords : IsRunOf (fun c => !Text.isBlank c) url :=
        ⟨hurl.1, fun c hc => by simp [not_isBlank_of_isUrlChar (hurl.2 c hc)]⟩
      have hcondition : IsRunOf (fun c => !Text.isBlank c)
          (conditionChars negated flag.toList) :=
        ⟨by simp [conditionChars], fun c hc => by
          simp [not_isBlank_conditionChars hflag negated c hc]⟩
      rw [← hwords.takeWhile_append (head_of_isCut rfl hcut), heq]
      refine hcondition.takeWhile_append ?_
      rintro c ⟨⟩
      simp [hblank]
    refine h ?_ ⟨negated, flag.toList, hflag, hsame⟩
    rintro rfl
    rw [hsame, List.append_nil] at heq
    simp at heq

/-! ## Rules for entries -/

/-- Whether characters begin with an arrow. -/
def StartsWithArrow (cs : List Char) : Prop :=
  ['-', '>'] <+: cs

namespace Entry

/-- Whether an entry is an address that begins with an arrow. -/
def LeadsWithArrow : Entry → Prop
  | uri url _ => StartsWithArrow url.toList
  | _ => False

/-- Whether an entry is an address without a name to store its file under. -/
def IsUnnamed : Entry → Prop
  | uri _ none => True
  | _ => False

/-- Whether an entry may follow another: an arrow behind an address would name its file. -/
def MayPrecede (e next : Entry) : Prop :=
  e.IsUnnamed → ¬ next.LeadsWithArrow

/-- The rules that entries obey when they were read. -/
inductive IsWritten : Entry → Prop where
  | uri {url : String} {rename : Option String} : IsRunOf isUrlChar url.toList →
    (∀ name ∈ rename, IsRunOf isFileNameChar name.toList ∧ ¬ LooksConditional url.toList) →
    IsWritten (uri url rename)
  | useConditional {flag : String} {entries : List Entry} (negated : Bool) :
    IsRunOf isUseFlagChar flag.toList → (∀ e ∈ entries, IsWritten e) →
    entries.IsChain MayPrecede → IsWritten (useConditional flag negated entries)
  | group {entries : List Entry} : (∀ e ∈ entries, IsWritten e) →
    entries.IsChain MayPrecede → IsWritten (group entries)

end Entry

/-- The rules that a list of entries obeys when it was read. -/
structure AreWritten (es : List Entry) : Prop where
  isWritten : ∀ e ∈ es, e.IsWritten
  isChain : es.IsChain Entry.MayPrecede

/-! ## What rules read -/

/-- Whether a rule for the members of groups finds what obeys the rules, and begins with an
arrow only where one stands. -/
def IsSound (members : List Char → Reading (List Entry)) : Prop :=
  ∀ cs es rest, members cs = .found es rest →
    AreWritten es ∧ ∀ e ∈ es.head?, e.LeadsWithArrow → StartsWithArrow (skipLayout cs)

/-- The name behind an arrow is a file name, and layout stands before the arrow, since an
address would go on with it.  Without a name no arrow follows. -/
theorem readRename_sound {cs rest : List Char} {rename : Option String}
    (hcs : ∀ c ∈ cs.head?, isUrlChar c = false) (h : readRename cs = .found rename rest) :
    (∀ name ∈ rename, IsRunOf isFileNameChar name.toList ∧
      ∃ c others, cs = c :: others ∧ Text.isBlank c = true) ∧
      (rename = none → ¬ StartsWithArrow (skipLayout rest)) := by
  unfold readRename at h
  split at h
  · next behind harrow =>
    dsimp only at h
    split at h
    · cases h
    next hname =>
    cases h
    refine ⟨?_, nofun⟩
    rintro name ⟨⟩
    rw [String.toList_ofList]
    refine ⟨isRunOf_takeWhile hname, ?_⟩
    cases cs with
    | nil => cases harrow
    | cons c others =>
      refine ⟨c, others, rfl, Text.isBlank_of_isLayout ?_⟩
      by_contra hlayout
      rw [skipLayout_of_not_layout (Bool.eq_false_iff.2 hlayout)] at harrow
      have hfalse := hcs c rfl
      rw [(List.cons.inj harrow).1] at hfalse
      cases hfalse
  · next hnone =>
    cases h
    refine ⟨nofun, ?_⟩
    rintro - ⟨behind, hbehind⟩
    exact hnone behind hbehind.symm

theorem head_dropWhile_isUrlChar (cs : List Char) :
    ∀ c ∈ (cs.dropWhile isUrlChar).head?, isUrlChar c = false := by
  intro c hc
  have hnot := List.head?_dropWhile_not isUrlChar cs
  rw [Option.mem_def.1 hc] at hnot
  exact hnot

/-- What is not taken for a condition is read as an address. -/
theorem readUri_sound {cs rest : List Char} {e : Entry} (hnone : splitCondition? cs = none)
    (h : readUri cs = .found e rest) :
    e.IsWritten ∧ (e.LeadsWithArrow → StartsWithArrow cs) ∧
      (e.IsUnnamed → ¬ StartsWithArrow (skipLayout rest)) := by
  have hcs : cs.takeWhile isUrlChar ++ cs.dropWhile isUrlChar = cs :=
    List.takeWhile_append_dropWhile
  unfold readUri at h
  split at h
  · cases h
  next hurl =>
  obtain ⟨rename, hrename, rfl⟩ := Outcome.map_eq_found_iff.1 h
  obtain ⟨hname, hunnamed⟩ := readRename_sound (head_dropWhile_isUrlChar cs) hrename
  refine ⟨.uri ?_ fun name hmem => ⟨(hname name hmem).1, ?_⟩, ?_, ?_⟩
  · rw [String.toList_ofList]
    exact isRunOf_takeWhile hurl
  · rintro ⟨negated, flag, hflag, hlooks⟩
    obtain ⟨_, c, others, hdrop, hc⟩ := hname name hmem
    rw [String.toList_ofList] at hlooks
    rw [← hcs, hlooks, hdrop, splitCondition?_conditionChars hflag negated hc] at hnone
    cases hnone
  · intro harrow
    rw [Entry.LeadsWithArrow, String.toList_ofList] at harrow
    exact harrow.trans (List.takeWhile_prefix _)
  · cases rename with
    | none => exact fun _ => hunnamed rfl
    | some name => exact nofun

section Rules

variable {members : List Char → Reading (List Entry)} (hmembers : IsSound members)
  {cs rest : List Char}
include hmembers

/-- Whatever is read as a group could have been written. -/
theorem readGroup_sound {es : List Entry} (h : readGroup members cs = .found es rest) :
    AreWritten es := by
  unfold readGroup at h
  split at h
  · next inner =>
    obtain ⟨entries, mid, hfound, hclose⟩ := Outcome.andThen_eq_found_iff.1 h
    split at hclose
    · cases hclose
      exact (hmembers inner es mid hfound).1
    · cases hclose
  · cases h

/-- Whatever is read as an entry could have been written, and arrows are told apart from addresses.
-/
theorem readEntry_sound {e : Entry} (h : readEntry members cs = .found e rest) :
    e.IsWritten ∧ (e.LeadsWithArrow → StartsWithArrow cs) ∧
      (e.IsUnnamed → ¬ StartsWithArrow (skipLayout rest)) := by
  unfold readEntry at h
  split at h
  · obtain ⟨es, hgroup, rfl⟩ := Outcome.map_eq_found_iff.1 h
    have hes := readGroup_sound hmembers hgroup
    exact ⟨.group hes.isWritten hes.isChain, nofun, nofun⟩
  split at h
  · next hnone => exact readUri_sound hnone h
  · next negated flag behind hcondition =>
    obtain ⟨es, hgroup, rfl⟩ := Outcome.map_eq_found_iff.1 h
    have hes := readGroup_sound hmembers (Outcome.required_eq_found_iff.1 hgroup)
    have hflag := (eq_append_of_splitCondition hcondition).1
    exact ⟨.useConditional negated hflag hes.isWritten hes.isChain, nofun, nofun⟩

end Rules

/-- Whatever is read as a list of entries could have been written. -/
theorem readEntriesUpTo_sound (n : Nat) : IsSound (readEntriesUpTo n) := by
  induction n with
  | zero =>
    rintro cs es rest ⟨⟩
    exact ⟨⟨nofun, .nil⟩, nofun⟩
  | succ n ih =>
    intro cs es rest h
    rw [readEntriesUpTo] at h
    split at h
    · next e mid hentry =>
      obtain ⟨others, hothers, rfl⟩ := Outcome.map_eq_found_iff.1 h
      obtain ⟨he, hstart, hunnamed⟩ := readEntry_sound ih hentry
      obtain ⟨⟨hes, hchain⟩, hnext⟩ := ih mid others rest hothers
      refine ⟨⟨List.forall_mem_cons.2 ⟨he, hes⟩, ?_⟩, ?_⟩
      · refine List.isChain_cons.2 ⟨fun next hmem he' hleads => ?_, hchain⟩
        exact hunnamed he' (hnext next hmem hleads)
      · rintro _ ⟨⟩
        exact hstart
    · cases h
      exact ⟨⟨nofun, .nil⟩, nofun⟩
    · cases h

/-- What was read obeys the rules. -/
theorem areWritten_of_parse {s : String} {es : List Entry} (h : parse s = .ok es) :
    AreWritten es := by
  unfold parse at h
  split at h
  · next entries hcomplete =>
    cases h
    obtain ⟨rest, hfound, _⟩ := Outcome.complete_eq_ok_iff.1 hcomplete
    exact (readEntriesUpTo_sound _ _ _ _ hfound).1
  · cases h

end SourceUri
end EbuildGraph
