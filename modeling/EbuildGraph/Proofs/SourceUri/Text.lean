import EbuildGraph.Proofs.SourceUri.Written

/-!
# Source addresses as they are written

Entries are written with a space behind each that another follows.  The space is what makes a
condition of an address that is spelled like one; nothing else is read differently.

Main definitions:

- {lit}`Entry.inner`: the entries inside the groups of an entry.
- {lit}`Entry.IsExact`: whether an entry is read where it is written, unless a space makes a
  condition of an address.

Main results:

- Theorem {lit}`Entry.IsWritten.isExact`: entries that were read are exact.
- Theorem {lit}`parse_text_iff`: when the text of entries that were read is read as the same
  entries.
-/

namespace EbuildGraph
namespace SourceUri

/-! ## Entries inside entries -/

namespace Entry

mutual

/-- The entries inside the groups of an entry. -/
def inner : Entry → List Entry
  | uri _ _ => []
  | useConditional _ _ entries => innerOfAll entries
  | group entries => innerOfAll entries

/-- The given entries and those inside their groups. -/
def innerOfAll : List Entry → List Entry
  | [] => []
  | e :: rest => e :: (e.inner ++ innerOfAll rest)

end

theorem forall_mem_innerOfAll_iff {p : Entry → Prop} {es : List Entry} :
    (∀ x ∈ innerOfAll es, p x) ↔ (∀ e ∈ es, p e) ∧ ∀ e ∈ es, ∀ x ∈ e.inner, p x := by
  induction es with
  | nil => simp [innerOfAll]
  | cons e rest ih =>
    rw [innerOfAll, List.forall_mem_cons, List.forall_mem_append, ih, List.forall_mem_cons,
      List.forall_mem_cons]
    exact ⟨fun ⟨he, hinner, hrest, hall⟩ => ⟨⟨he, hrest⟩, hinner, hall⟩,
      fun ⟨⟨he, hrest⟩, hinner, hall⟩ => ⟨he, hinner, hrest, hall⟩⟩

/-- Whether an entry is an address that is spelled like the condition on a flag. -/
def IsAmbiguous : Entry → Prop
  | uri url _ => LooksConditional url.toList
  | _ => False

/-! ## Written entries -/

/-- A group is a parenthesis, each member behind a space, and another space before the closing
parenthesis. -/
theorem toList_groupText (members : List String) :
    (groupText members).toList = '(' :: (Text.spaced members ++ [' ', ')']) := by
  have hjoin : (String.join (members.map fun member => " " ++ member)).toList =
      Text.spaced members := by
    induction members with
    | nil => rfl
    | cons member rest ih => simp [String.join_cons, ih]
  rw [groupText, String.toList_append, String.toList_append, hjoin]
  rfl

/-- What is written behind the address of an entry. -/
def renameChars : Option String → List Char
  | none => []
  | some name => ' ' :: '-' :: '>' :: ' ' :: name.toList

theorem toList_text_uri (url : String) (rename : Option String) :
    (uri url rename).text.toList = url.toList ++ renameChars rename := by
  cases rename with
  | none => exact (List.append_nil _).symm
  | some name => simp [text, renameChars]

theorem toList_text_useConditional (flag : String) (negated : Bool) (es : List Entry) :
    (useConditional flag negated es).text.toList = conditionChars negated flag.toList ++
      ' ' :: '(' :: (Text.spaced (texts es) ++ [' ', ')']) := by
  rw [text, String.toList_append, toList_groupText]
  cases negated <;> simp [conditionChars]

theorem isCut_renameChars_append (rename : Option String) {rest : List Char}
    (h : Text.IsCut rest) : Text.IsCut (renameChars rename ++ rest) := by
  cases rename with
  | none => exact h
  | some name => exact Text.isCut_space _

/-- A condition begins with an exclamation mark or with its flag. -/
theorem exists_start_conditionChars {flag : List Char} (h : IsRunOf isUseFlagChar flag)
    (negated : Bool) : ∃ c cs, conditionChars negated flag = c :: cs ∧ c ≠ '(' ∧
      Text.isLayout c = false := by
  cases negated with
  | true => exact ⟨'!', flag ++ ['?'], rfl, by decide, rfl⟩
  | false =>
    obtain ⟨c, cs, rfl⟩ := List.exists_cons_of_ne_nil h.1
    have hc := h.2 c List.mem_cons_self
    refine ⟨c, cs ++ ['?'], rfl, ?_, ?_⟩
    · rintro rfl
      cases hc
    · exact Text.isLayout_of_not_isBlank (not_isBlank_of_isUseFlagChar hc)

/-- An entry does not begin with layout. -/
theorem IsWritten.exists_start {e : Entry} (h : e.IsWritten) :
    ∃ c cs, e.text.toList = c :: cs ∧ Text.isLayout c = false := by
  cases h with
  | @uri url rename hurl _ =>
    obtain ⟨c, cs, hstart⟩ := List.exists_cons_of_ne_nil hurl.1
    rw [toList_text_uri, hstart]
    refine ⟨c, _, rfl, Text.isLayout_of_not_isBlank ?_⟩
    exact not_isBlank_of_isUrlChar (hurl.2 c (by simp [hstart]))
  | @useConditional flag es negated hflag _ _ =>
    obtain ⟨c, cs, hstart, _, hc⟩ := exists_start_conditionChars hflag negated
    rw [toList_text_useConditional, hstart]
    exact ⟨c, _, rfl, hc⟩
  | @group es _ _ =>
    rw [text, toList_groupText]
    exact ⟨'(', _, rfl, rfl⟩

theorem IsWritten.skipLayout_text {e : Entry} (h : e.IsWritten) (rest : List Char) :
    skipLayout (e.text.toList ++ rest) = e.text.toList ++ rest := by
  obtain ⟨c, cs, hstart, hc⟩ := h.exists_start
  rw [hstart, List.cons_append, skipLayout_of_not_layout hc]

/-- An arrow does not begin across the end of a word. -/
theorem startsWithArrow_of_isCut {cs rest : List Char} (hne : cs ≠ []) (hcut : Text.IsCut rest)
    (h : StartsWithArrow (cs ++ rest)) : StartsWithArrow cs := by
  obtain ⟨behind, hbehind⟩ := h
  match cs, hne with
  | [c], _ =>
    have hrest : rest = '>' :: behind := (List.cons.inj hbehind).2.symm
    have hspace := hcut '>' (hrest ▸ rfl)
    cases hspace
  | c :: d :: cs, _ =>
    simp only [List.cons_append, List.cons.injEq] at hbehind
    rw [← hbehind.1, ← hbehind.2.1]
    exact ⟨cs, rfl⟩

/-- An arrow stands at the beginning of no entry but an address. -/
theorem IsWritten.leadsWithArrow {e : Entry} (h : e.IsWritten) {rest : List Char}
    (hcut : Text.IsCut rest) (harrow : StartsWithArrow (e.text.toList ++ rest)) :
    e.LeadsWithArrow := by
  cases h with
  | @uri url rename hurl _ =>
    rw [toList_text_uri, List.append_assoc] at harrow
    exact startsWithArrow_of_isCut hurl.1 (isCut_renameChars_append rename hcut) harrow
  | @useConditional flag es negated hflag _ _ =>
    exfalso
    rw [toList_text_useConditional, List.append_assoc] at harrow
    have hcondition : StartsWithArrow (conditionChars negated flag.toList) :=
      startsWithArrow_of_isCut (by simp [conditionChars]) (Text.isCut_space _) harrow
    have hmem : '>' ∈ conditionChars negated flag.toList :=
      hcondition.subset (by simp)
    simp only [conditionChars, List.mem_append] at hmem
    rcases hmem with hmem | hmem | hmem
    · cases negated <;> simp at hmem
    · have hfalse := hflag.2 '>' hmem
      cases hfalse
    · simp at hmem
  | @group es _ _ =>
    exfalso
    rw [text, toList_groupText] at harrow
    obtain ⟨behind, hbehind⟩ := harrow
    simp at hbehind

/-! ## Reading what was written -/

/-- Whether an entry is read where it is written, unless a space behind an address that is
spelled like a condition makes it one.  No step takes more members than the text has
characters. -/
def IsExact (e : Entry) : Prop :=
  ∀ n rest r, e.text.length ≤ n → Text.IsCut rest →
    (e.IsUnnamed → ¬ StartsWithArrow (skipLayout rest)) →
    (readEntry (readEntriesUpTo n) (e.text.toList ++ rest) = .found e r ↔
      r = rest ∧ (rest ≠ [] → ¬ e.IsAmbiguous) ∧ ∀ x ∈ e.inner, ¬ x.IsAmbiguous)

end Entry

theorem readEntriesUpTo_of_endsMembers {tail : List Char} (h : Text.EndsMembers tail) (n : Nat) :
    readEntriesUpTo n tail = .found [] tail := by
  cases n with
  | zero => rfl
  | succ n =>
    rcases h with rfl | ⟨rest, rfl⟩
    · rfl
    · rfl

theorem not_startsWithArrow_of_endsMembers {tail : List Char} (h : Text.EndsMembers tail) :
    ¬ StartsWithArrow (skipLayout tail) := by
  rcases h with rfl | ⟨rest, rfl⟩
  · rintro ⟨behind, hbehind⟩
    cases hbehind
  · rw [skipLayout_space, skipLayout_of_not_layout rfl]
    rintro ⟨behind, hbehind⟩
    cases hbehind

/-- The entries of a list that a space is written behind before some end of the list. -/
def beforeSpace (tail : List Char) (es : List Entry) : List Entry :=
  if tail = [] then es.dropLast else es

theorem forall_mem_beforeSpace_cons {p : Entry → Prop} {tail : List Char} {e : Entry}
    {es : List Entry} : (∀ x ∈ beforeSpace tail (e :: es), p x) ↔
      (Text.spaced (Entry.texts es) ++ tail ≠ [] → p e) ∧ ∀ x ∈ beforeSpace tail es, p x := by
  by_cases htail : tail = []
  · cases es with
    | nil => simp [beforeSpace, htail, Entry.texts]
    | cons next es => simp [beforeSpace, htail, Entry.texts]
  · simp [beforeSpace, htail]

/-- Entries are read one after another. -/
theorem readEntriesUpTo_cons_iff {n : Nat} {e : Entry} {es : List Entry} {cs r : List Char} :
    readEntriesUpTo (n + 1) cs = .found (e :: es) r ↔
      ∃ mid, readEntry (readEntriesUpTo n) (skipLayout cs) = .found e mid ∧
        readEntriesUpTo n mid = .found es r := by
  rw [readEntriesUpTo]
  split
  · next first mid hfirst =>
    rw [hfirst, Outcome.map_eq_found_iff]
    constructor
    · rintro ⟨others, hothers, heq⟩
      cases heq
      exact ⟨mid, rfl, hothers⟩
    · rintro ⟨_, heq, hothers⟩
      cases heq
      exact ⟨es, hothers, rfl⟩
  · next habsent => simp [habsent]
  · next hbroken => simp [hbroken]

/-- An arrow begins a list of written entries only where an address begins with it. -/
theorem not_startsWithArrow_spaced {e : Entry} {es : List Entry} {tail : List Char}
    (hes : AreWritten (e :: es)) (htail : Text.EndsMembers tail) (hunnamed : e.IsUnnamed) :
    ¬ StartsWithArrow (skipLayout (Text.spaced (Entry.texts es) ++ tail)) := by
  cases es with
  | nil => exact not_startsWithArrow_of_endsMembers htail
  | cons next es =>
    have hnext : next.IsWritten := hes.isWritten next (by simp)
    rw [Entry.texts, Text.spaced_cons, List.cons_append, skipLayout_space, List.append_assoc,
      hnext.skipLayout_text]
    intro harrow
    have hcut := Text.isCut_spaced_append (Entry.texts es) htail.isCut
    exact (List.isChain_cons.1 hes.isChain).1 next rfl hunnamed (hnext.leadsWithArrow hcut harrow)

/-- Members are read as they are written when no space makes a condition of an address. -/
theorem readEntriesUpTo_spaced_iff {es : List Entry} (hes : AreWritten es)
    (hexact : ∀ e ∈ es, e.IsExact) {tail : List Char} (htail : Text.EndsMembers tail) {n : Nat}
    (hn : (Text.spaced (Entry.texts es)).length ≤ n) {r : List Char} :
    readEntriesUpTo n (Text.spaced (Entry.texts es) ++ tail) = .found es r ↔
      r = tail ∧ (∀ e ∈ beforeSpace tail es, ¬ e.IsAmbiguous) ∧
        ∀ e ∈ es, ∀ x ∈ e.inner, ¬ x.IsAmbiguous := by
  induction es generalizing n with
  | nil =>
    have hempty : beforeSpace tail [] = [] := by
      unfold beforeSpace
      split <;> rfl
    have hread : readEntriesUpTo n (Text.spaced (Entry.texts []) ++ tail) = .found [] tail :=
      readEntriesUpTo_of_endsMembers htail n
    rw [hread, hempty]
    simp [eq_comm]
  | cons e es ih =>
    have hrest : AreWritten es :=
      ⟨(List.forall_mem_cons.1 hes.isWritten).2, (List.isChain_cons.1 hes.isChain).2⟩
    obtain ⟨he, hexact'⟩ := List.forall_mem_cons.1 hexact
    have hskip := (hes.isWritten e List.mem_cons_self).skipLayout_text
    rw [Entry.texts, Text.spaced_cons, List.length_cons, List.length_append,
      String.length_toList] at hn
    obtain ⟨m, rfl⟩ : ∃ m, n = m + 1 := ⟨n - 1, by omega⟩
    have hentry := fun mid => he m (Text.spaced (Entry.texts es) ++ tail) mid (by omega)
      (Text.isCut_spaced_append _ htail.isCut) (not_startsWithArrow_spaced hes htail)
    rw [Entry.texts, Text.spaced_cons, List.cons_append, List.append_assoc,
      readEntriesUpTo_cons_iff, skipLayout_space, hskip, forall_mem_beforeSpace_cons,
      List.forall_mem_cons]
    constructor
    · rintro ⟨mid, hfirst, hothers⟩
      obtain ⟨rfl, hfree, hinner⟩ := (hentry mid).1 hfirst
      obtain ⟨rfl, hfree', hinner'⟩ := (ih hrest hexact' (by omega)).1 hothers
      exact ⟨rfl, ⟨hfree, hfree'⟩, hinner, hinner'⟩
    · rintro ⟨rfl, ⟨hfree, hfree'⟩, hinner, hinner'⟩
      exact ⟨_, (hentry _).2 ⟨rfl, hfree, hinner⟩,
        (ih hrest hexact' (by omega)).2 ⟨rfl, hfree', hinner'⟩⟩

/-- A group is read as it is written when no space makes a condition of an address in it. -/
theorem readGroup_text_iff {es : List Entry} (hes : AreWritten es)
    (hexact : ∀ e ∈ es, e.IsExact) {n : Nat}
    (hn : (Text.spaced (Entry.texts es)).length ≤ n) (rest r : List Char) :
    readGroup (readEntriesUpTo n) ('(' :: (Text.spaced (Entry.texts es) ++ ' ' :: ')' :: rest)) =
      .found es r ↔ r = rest ∧ ∀ x ∈ Entry.innerOfAll es, ¬ x.IsAmbiguous := by
  have hmembers := fun mid => readEntriesUpTo_spaced_iff hes hexact
    (Or.inr ⟨rest, rfl⟩ : Text.EndsMembers (' ' :: ')' :: rest)) hn (r := mid)
  have hall : beforeSpace (' ' :: ')' :: rest) es = es := if_neg (List.cons_ne_nil _ _)
  rw [hall] at hmembers
  rw [readGroup, Outcome.andThen_eq_found_iff, Entry.forall_mem_innerOfAll_iff]
  constructor
  · rintro ⟨entries, mid, hfound, hclose⟩
    split at hclose
    · next behind hmid =>
      cases hclose
      obtain ⟨rfl, hfree⟩ := (hmembers mid).1 hfound
      rw [skipLayout_space, skipLayout_of_not_layout rfl] at hmid
      exact ⟨(List.cons.inj hmid).2.symm, hfree⟩
    · cases hclose
  · rintro ⟨rfl, hfree⟩
    exact ⟨es, _, (hmembers _).2 ⟨rfl, hfree⟩, rfl⟩

/-! ## Addresses -/

theorem not_isLayout_of_isFileNameChar {c : Char} (h : isFileNameChar c = true) :
    Text.isLayout c = false := by
  simp only [isFileNameChar, Bool.or_eq_true, beq_iff_eq] at h
  rcases h with (((((((h | rfl) | rfl) | rfl) | rfl) | rfl) | rfl) | rfl)
  · exact Text.isLayout_of_not_isBlank (Text.not_isBlank_of_isAlphanum h)
  all_goals rfl

section Addresses

variable {rename : Option String} {rest : List Char} (hcut : Text.IsCut rest)
include hcut

/-- A new name is read back behind its arrow, and its absence is read back where no arrow follows.
-/
theorem readRename_renameChars (hname : ∀ name ∈ rename, IsRunOf isFileNameChar name.toList)
    (harrow : rename = none → ¬ StartsWithArrow (skipLayout rest)) :
    readRename (Entry.renameChars rename ++ rest) = .found rename rest := by
  cases rename with
  | none =>
    unfold readRename
    split
    · next behind hbehind => exact absurd ⟨behind, hbehind.symm⟩ (harrow rfl)
    · rfl
  | some name =>
    have hrun := hname name rfl
    have hskip : skipLayout (' ' :: (name.toList ++ rest)) = name.toList ++ rest := by
      obtain ⟨c, cs, hstart⟩ := List.exists_cons_of_ne_nil hrun.1
      have hc := not_isLayout_of_isFileNameChar (hrun.2 c (by simp [hstart]))
      rw [skipLayout_space, hstart, List.cons_append, skipLayout_of_not_layout hc]
    have htake := hrun.takeWhile_append (head_of_isCut rfl hcut)
    have hdrop := hrun.dropWhile_append (head_of_isCut rfl hcut)
    have hchars : skipLayout (Entry.renameChars (some name) ++ rest) =
        '-' :: '>' :: ' ' :: (name.toList ++ rest) := by
      rw [Entry.renameChars, List.cons_append, skipLayout_space, List.cons_append,
        skipLayout_of_not_layout rfl]
      rfl
    unfold readRename
    simp only [hchars, hskip, htake, hdrop]
    split
    · next hnone => exact absurd hnone hrun.1
    · rw [String.ofList_toList]

/-- An address is read back with its new name. -/
theorem readUri_text {url : String} (hurl : IsRunOf isUrlChar url.toList)
    (hname : ∀ name ∈ rename, IsRunOf isFileNameChar name.toList)
    (harrow : rename = none → ¬ StartsWithArrow (skipLayout rest)) :
    readUri (url.toList ++ (Entry.renameChars rename ++ rest)) =
      .found (.uri url rename) rest := by
  have hbehind := head_of_isCut (p := isUrlChar) rfl (Entry.isCut_renameChars_append rename hcut)
  rw [readUri, hurl.takeWhile_append hbehind, hurl.dropWhile_append hbehind,
    readRename_renameChars hcut hname harrow]
  split
  · next hnone => exact absurd hnone hurl.1
  · rw [String.ofList_toList]
    rfl

end Addresses

/-- What begins with no parenthesis is a condition or an address. -/
theorem readEntry_of_ne {cs : List Char} (h : cs.head? ≠ some '(')
    (members : List Char → Reading (List Entry)) :
    (splitCondition? cs = none → readEntry members cs = readUri cs) ∧
      ∀ negated flag rest, splitCondition? cs = some (negated, flag, rest) →
        readEntry members cs = ((readGroup members (skipLayout rest)).required
          ⟨some "USE conditional group", none⟩ (skipLayout rest)).map
            (.useConditional flag negated) := by
  have hcs : ∀ inner, cs = '(' :: inner → False := by
    rintro inner rfl
    exact h rfl
  constructor
  · intro hnone
    rw [readEntry.eq_2 members cs hcs, hnone]
  · intro negated flag rest hsome
    rw [readEntry.eq_2 members cs hcs, hsome]

/-! ## Entries -/

namespace Entry

/-- The text of an address is read back as that address. -/
theorem isExact_uri {url : String} {rename : Option String} (hurl : IsRunOf isUrlChar url.toList)
    (hname : ∀ name ∈ rename, IsRunOf isFileNameChar name.toList ∧ ¬ LooksConditional url.toList) :
    (uri url rename).IsExact := by
  intro n rest r _ hcut harrow
  obtain ⟨c, cs, hstart⟩ := List.exists_cons_of_ne_nil hurl.1
  have hhead : (url.toList ++ (renameChars rename ++ rest)).head? ≠ some '(' := by
    rw [hstart]
    rintro ⟨⟩
    have hfalse := hurl.2 '(' (by simp [hstart])
    cases hfalse
  have hsplit := splitCondition_address hurl (isCut_renameChars_append rename hcut)
  have hread : readUri (url.toList ++ (renameChars rename ++ rest)) =
      .found (uri url rename) rest :=
    readUri_text hcut hurl (fun name hmem => (hname name hmem).1) fun hnone =>
      harrow (by rw [hnone]; trivial)
  have hnone_iff : splitCondition? (url.toList ++ (renameChars rename ++ rest)) = none ↔
      (rest ≠ [] → ¬ LooksConditional url.toList) := by
    rw [hsplit]
    cases rename with
    | none => rfl
    | some name => exact ⟨fun h _ => h (by simp [renameChars]), fun _ _ => (hname name rfl).2⟩
  rw [toList_text_uri, List.append_assoc]
  rcases hcondition : splitCondition? (url.toList ++ (renameChars rename ++ rest)) with
    _ | ⟨negated, flag, after⟩
  · rw [(readEntry_of_ne hhead _).1 hcondition, hread]
    have hfree := hnone_iff.1 hcondition
    constructor
    · rintro ⟨⟩
      exact ⟨rfl, hfree, nofun⟩
    · rintro ⟨rfl, _⟩
      rfl
  · rw [(readEntry_of_ne hhead _).2 negated flag after hcondition, Outcome.map_eq_found_iff]
    constructor
    · rintro ⟨_, _, ⟨⟩⟩
    · rintro ⟨_, hfree, _⟩
      rw [hnone_iff.2 hfree] at hcondition
      cases hcondition

theorem length_spaced_le {cs : List Char} {members : List String} {text : String}
    (h : text.toList = cs ++ '(' :: (Text.spaced members ++ [' ', ')'])) :
    (Text.spaced members).length ≤ text.length := by
  rw [← String.length_toList, h, List.length_append, List.length_cons, List.length_append]
  omega

/-- Entries that were read are exact. -/
theorem IsWritten.isExact {e : Entry} (h : e.IsWritten) : e.IsExact := by
  induction h with
  | uri hurl hname => exact isExact_uri hurl hname
  | @useConditional flag es negated hflag hes hchain ih =>
    intro n rest r hn _ _
    have hchars := toList_text_useConditional flag negated es
    have hgroup := readGroup_text_iff ⟨hes, hchain⟩ ih
      ((length_spaced_le (hchars.trans (List.append_cons ..))).trans hn) rest r
    have htext : (Entry.useConditional flag negated es).text.toList ++ rest =
        conditionChars negated flag.toList ++
          ' ' :: '(' :: (Text.spaced (texts es) ++ ' ' :: ')' :: rest) := by
      simp [hchars]
    have hcondition := splitCondition?_conditionChars hflag negated (rfl : Text.isBlank ' ' = true)
      ('(' :: (Text.spaced (texts es) ++ ' ' :: ')' :: rest))
    have hhead : (conditionChars negated flag.toList ++
        ' ' :: '(' :: (Text.spaced (texts es) ++ ' ' :: ')' :: rest)).head? ≠ some '(' := by
      obtain ⟨c, cs, hstart, hc, _⟩ := exists_start_conditionChars hflag negated
      rw [hstart]
      simpa using hc
    rw [htext, (readEntry_of_ne hhead _).2 _ _ _ hcondition, skipLayout_space,
      skipLayout_of_not_layout rfl, String.ofList_toList, Outcome.map_eq_found_iff]
    simp only [Outcome.required_eq_found_iff]
    constructor
    · rintro ⟨_, hfound, heq⟩
      cases heq
      obtain ⟨rfl, hinner⟩ := hgroup.1 hfound
      exact ⟨rfl, fun _ => id, hinner⟩
    · rintro ⟨rfl, _, hinner⟩
      exact ⟨es, hgroup.2 ⟨rfl, hinner⟩, rfl⟩
  | @group es hes hchain ih =>
    intro n rest r hn _ _
    have hchars : (Entry.group es).text.toList =
        [] ++ '(' :: (Text.spaced (texts es) ++ [' ', ')']) :=
      toList_groupText (texts es)
    have hgroup := readGroup_text_iff ⟨hes, hchain⟩ ih ((length_spaced_le hchars).trans hn) rest r
    have htext : (Entry.group es).text.toList ++ rest =
        '(' :: (Text.spaced (texts es) ++ ' ' :: ')' :: rest) := by
      simp [hchars]
    rw [htext, readEntry, Outcome.map_eq_found_iff]
    constructor
    · rintro ⟨_, hfound, heq⟩
      cases heq
      obtain ⟨rfl, hinner⟩ := hgroup.1 hfound
      exact ⟨rfl, fun _ => id, hinner⟩
    · rintro ⟨rfl, _, hinner⟩
      exact ⟨es, hgroup.2 ⟨rfl, hinner⟩, rfl⟩

end Entry

/-! ## Values -/

/-- A text is parsed if nothing but layout is left behind its entries. -/
theorem parse_eq_ok_iff {s : String} {es : List Entry} :
    parse s = .ok es ↔ ∃ rest, readEntries s.toList = .found es rest ∧ skipLayout rest = [] := by
  have hcomplete : (readEntries s.toList).complete s.toList = .ok es ↔
      ∃ rest, readEntries s.toList = .found es rest ∧ skipLayout rest = [] :=
    Outcome.complete_eq_ok_iff
  rw [← hcomplete, parse]
  split
  · next entries hentries => rw [hentries, Except.ok.injEq, Except.ok.injEq]
  · next fault hfault => simp [hfault]

/-- The first entry is read from the beginning of the text, the others behind spaces. -/
theorem parse_text_cons_iff {e : Entry} {es : List Entry} (hes : AreWritten (e :: es)) :
    parse (text (e :: es)) = .ok (e :: es) ↔
      (∀ x ∈ (e :: es).dropLast, ¬ x.IsAmbiguous) ∧
        ∀ x ∈ e :: es, ∀ y ∈ x.inner, ¬ y.IsAmbiguous := by
  have hrest : AreWritten es :=
    ⟨(List.forall_mem_cons.1 hes.isWritten).2, (List.isChain_cons.1 hes.isChain).2⟩
  have hexact : ∀ x ∈ e :: es, x.IsExact := fun x hx => (hes.isWritten x hx).isExact
  have hchars : (text (e :: es)).toList =
      e.text.toList ++ (Text.spaced (Entry.texts es) ++ []) := by
    rw [List.append_nil]
    exact Text.toList_unwords_cons e.text (Entry.texts es)
  have hskip : skipLayout (text (e :: es)).toList =
      e.text.toList ++ (Text.spaced (Entry.texts es) ++ []) := by
    rw [hchars, (hes.isWritten e List.mem_cons_self).skipLayout_text]
  have hend : Text.EndsMembers [] := Or.inl rfl
  have hlength : e.text.length + (Text.spaced (Entry.texts es)).length ≤
      (text (e :: es)).toList.length := by
    rw [hchars, List.append_nil, List.length_append, String.length_toList]
  have hfirst := fun mid => hexact e List.mem_cons_self (text (e :: es)).toList.length
    (Text.spaced (Entry.texts es) ++ []) mid (by omega)
    (Text.isCut_spaced_append _ hend.isCut) (not_startsWithArrow_spaced hes hend)
  have hothers := fun r => readEntriesUpTo_spaced_iff hrest
    (fun x hx => hexact x (List.mem_cons_of_mem e hx)) hend
    (n := (text (e :: es)).toList.length) (by omega) (r := r)
  have hspace : ∀ l : List Entry, beforeSpace [] l = l.dropLast := fun _ => if_pos rfl
  rw [parse_eq_ok_iff, ← hspace, forall_mem_beforeSpace_cons, List.forall_mem_cons]
  constructor
  · rintro ⟨r, hfound, _⟩
    obtain ⟨mid, he, hfound⟩ := readEntriesUpTo_cons_iff.1 hfound
    rw [hskip] at he
    obtain ⟨rfl, hfree, hinner⟩ := (hfirst mid).1 he
    obtain ⟨_, hfree', hinner'⟩ := (hothers r).1 hfound
    exact ⟨⟨hfree, hfree'⟩, hinner, hinner'⟩
  · rintro ⟨⟨hfree, hfree'⟩, hinner, hinner'⟩
    refine ⟨[], readEntriesUpTo_cons_iff.2 ⟨_, ?_, (hothers []).2 ⟨rfl, hfree', hinner'⟩⟩, rfl⟩
    rw [hskip]
    exact (hfirst _).2 ⟨rfl, hfree, hinner⟩

/-- Entries that were read are read again as they are written, exactly when no address that is
spelled like the condition on a flag has a space behind it: when none stands inside a group or
before another entry. -/
theorem parse_text_iff {s : String} {es : List Entry} (h : parse s = .ok es) :
    parse (text es) = .ok es ↔
      (∀ e ∈ es.dropLast, ¬ e.IsAmbiguous) ∧ ∀ e ∈ es, ∀ x ∈ e.inner, ¬ x.IsAmbiguous := by
  cases es with
  | nil =>
    have hempty : parse (text []) = .ok [] := rfl
    simp [hempty]
  | cons e es => exact parse_text_cons_iff (areWritten_of_parse h)

/-- An address that is spelled like a condition may be the last entry. -/
theorem reads_last_address :
    ∃ es, parse "ssl?\n(https://a/b -> c)!doc?" = .ok es ∧
      text es = "ssl? ( https://a/b -> c ) !doc?" ∧ parse (text es) = .ok es := by
  have hparse : parse "ssl?\n(https://a/b -> c)!doc?" = .ok
      [.useConditional "ssl" false [.uri "https://a/b" (some "c")], .uri "!doc?" none] := rfl
  have haddress : ¬ LooksConditional "https://a/b".toList := by
    rintro ⟨negated, flag, _, heq⟩
    have hlast := congrArg List.getLast? heq
    simp [conditionChars] at hlast
  refine ⟨_, hparse, rfl, (parse_text_iff hparse).2 ⟨?_, ?_⟩⟩
  · simp [Entry.IsAmbiguous]
  · simpa [Entry.inner, Entry.innerOfAll, Entry.IsAmbiguous] using haddress

/-- A parenthesis may stand directly behind an address that is spelled like a condition.  It is
written with a space between, and that is a condition. -/
theorem space_makes_condition :
    ∃ es, parse "ssl?( https://a/b )" = .ok es ∧ text es = "ssl? ( https://a/b )" ∧
      parse (text es) ≠ .ok es := by
  refine ⟨[.uri "ssl?" none, .group [.uri "https://a/b" none]], rfl, rfl, ?_⟩
  have hcondition : parse "ssl? ( https://a/b )" =
      .ok [.useConditional "ssl" false [.uri "https://a/b" none]] := rfl
  intro hread
  have hboth := hcondition.symm.trans hread
  cases hboth

end SourceUri
end EbuildGraph
