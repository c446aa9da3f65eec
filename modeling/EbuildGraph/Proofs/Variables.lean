import EbuildGraph.Proofs.Text.Words
import EbuildGraph.Variables
import Mathlib.Data.List.Induction

/-!
# Lists of flags across layers

The words of an incremental variable add up across layers, first to last, and what they leave
on is told by the last word about each flag.

Main definitions:

- {lit}`EndsOn`: whether a word occurs and nothing behind it takes it back.
- {lit}`TurnedOn`: whether a list of words leaves a flag on.
- {lit}`Variables.mergeValue`: what a merge makes of the values of a variable.

Main results:

- Theorem {lit}`mem_finalFlags_iff`: the flags that are on after a list of words.
- Theorem {lit}`Variables.get?_merge`: the variables of a table on top of another.
- Theorem {lit}`Variables.list_settle`: the words of an incremental variable in what layers
  amount to.
-/

namespace EbuildGraph

/-! ## Last words -/

/-- Whether a word occurs in a list with none of those that take it back behind it. -/
def EndsOn (word : String) (undo words : List String) : Prop :=
  ∃ before after, words = before ++ word :: after ∧ ∀ w ∈ after, w ∉ undo

theorem not_endsOn_nil (word : String) (undo : List String) : ¬ EndsOn word undo [] := by
  rintro ⟨before, after, heq, _⟩
  simp at heq

/-- The last word of a list decides, unless it says nothing about the given one. -/
theorem endsOn_append_singleton {word last : String} {undo words : List String} :
    EndsOn word undo (words ++ [last]) ↔ last = word ∨ last ∉ undo ∧ EndsOn word undo words := by
  constructor
  · rintro ⟨before, after, heq, hafter⟩
    rcases List.eq_nil_or_concat after with rfl | ⟨others, final, rfl⟩
    · exact Or.inl (List.append_inj' heq rfl).2 |>.imp_left fun h => (List.cons.inj h).1
    · right
      rw [List.concat_eq_append, ← List.cons_append, ← List.append_assoc] at heq
      obtain ⟨hwords, hlast⟩ := List.append_inj' heq rfl
      obtain rfl := (List.cons.inj hlast).1
      rw [List.concat_eq_append, List.forall_mem_append] at hafter
      exact ⟨hafter.2 last (List.mem_singleton.2 rfl), before, others, hwords, hafter.1⟩
  · rintro (rfl | ⟨hlast, before, after, rfl, hafter⟩)
    · exact ⟨words, [], rfl, nofun⟩
    · refine ⟨before, after ++ [last], by simp, ?_⟩
      rw [List.forall_mem_append]
      exact ⟨hafter, fun w hw => List.mem_singleton.1 hw ▸ hlast⟩

/-- Whether a list of words leaves a flag on: it turns the flag on and then neither this flag
nor all flags off. -/
def TurnedOn (flag : String) (words : List String) : Prop :=
  EndsOn flag ["-" ++ flag, "-*"] words

/-! ## Lists of flags -/

/-- A text with a hyphen in front of it. -/
theorem eq_hyphen_append {token : String} {name : List Char} (h : token.toList = '-' :: name) :
    token = "-" ++ String.ofList name := by
  simp [← String.toList_inj, h]

/-- A name without a hyphen in front. -/
def IsFlag (flag : String) : Prop :=
  flag.toList.head? ≠ some '-'

instance : DecidablePred IsFlag :=
  fun flag => inferInstanceAs (Decidable (flag.toList.head? ≠ some '-'))

theorem IsFlag.ne_hyphen_append {flag : String} (h : IsFlag flag) (s : String) :
    flag ≠ "-" ++ s := by
  rintro rfl
  exact h (by simp)

/-- One word turns the flag on that it is, and off the one behind its hyphen, or all. -/
theorem mem_applyFlag_iff {flag : String} (hflag : IsFlag flag) {flags : NameSet}
    {token : String} : flag ∈ applyFlag flags token ↔
      token = flag ∨ token ∉ ["-" ++ flag, "-*"] ∧ flag ∈ flags := by
  unfold applyFlag
  split
  · next hall =>
    have hne : "-*" ≠ flag := (hflag.ne_hyphen_append "*").symm
    simp [hall, hne]
  · next hall =>
    split
    · next name hname =>
      obtain rfl := eq_hyphen_append hname
      have hne := (hflag.ne_hyphen_append (String.ofList name)).symm
      simp [hne, hall, and_comm, eq_comm]
    · next hname =>
      have hother : token ≠ "-" ++ flag := by
        rintro rfl
        exact hname flag.toList (by simp)
      simp [hother, hall, eq_comm]

/-- The last token of a list is applied last. -/
theorem finalFlags_append_singleton (tokens : List String) (last : String) :
    finalFlags (tokens ++ [last]) = applyFlag (finalFlags tokens) last := by
  rw [finalFlags, List.foldl_append]
  rfl

/-- A flag is on after a list of words exactly when it was turned on last. -/
theorem mem_finalFlags_iff {flag : String} (hflag : IsFlag flag) {tokens : List String} :
    flag ∈ finalFlags tokens ↔ TurnedOn flag tokens := by
  induction tokens using List.reverseRecOn with
  | nil =>
    have hempty : ¬ flag ∈ finalFlags [] := NameSet.not_mem_empty flag
    exact iff_of_false hempty (not_endsOn_nil _ _)
  | append_singleton tokens last ih =>
    rw [finalFlags_append_singleton, mem_applyFlag_iff hflag, ih]
    exact endsOn_append_singleton.symm

/-- What is on is one of the words. -/
theorem mem_of_mem_finalFlags {flag : String} {tokens : List String}
    (h : flag ∈ finalFlags tokens) : flag ∈ tokens := by
  induction tokens using List.reverseRecOn with
  | nil => exact absurd h (NameSet.not_mem_empty flag)
  | append_singleton tokens last ih =>
    rw [finalFlags_append_singleton] at h
    unfold applyFlag at h
    split at h
    · exact absurd h (NameSet.not_mem_empty flag)
    split at h
    · exact List.mem_append_left _ (ih (NameSet.mem_erase.1 h).1)
    · rcases NameSet.mem_insert.1 h with rfl | h
      · exact List.mem_append_right _ (List.mem_singleton.2 rfl)
      · exact List.mem_append_left _ (ih h)

namespace Variables

/-! ## Tables on top of one another -/

/-- The list of a variable is made of the words of its value. -/
theorem list_of_get? {vars : Variables} {name value : String} (h : vars.get? name = some value) :
    vars.list name = Text.words value := by
  rw [list, Variables.value, h, Option.getD_some]

/-- A value that is added puts its words behind those that are there. -/
theorem words_addValue (current value : String) :
    Text.words (addValue current value) = Text.words current ++ Text.words value := by
  unfold addValue
  split
  · next h => rw [h, Text.words_empty, List.nil_append]
  · exact Text.words_append_space current value

/-- The value of a variable in a table on top of another, from its values in the lower and in
the upper table. -/
def mergeValue (name : String) : Option String → Option String → Option String
  | current, none => current
  | none, some value => some value
  | some current, some value =>
    some (if isIncremental name then addValue current value else value)

theorem get?_mergeEntry (vars : Variables) (key value name : String) :
    (mergeEntry vars key value).get? name =
      if name = key then mergeValue key (vars.get? key) (some value) else vars.get? name := by
  unfold mergeEntry
  split
  · next current hcurrent =>
    rw [hcurrent, mergeValue]
    split <;> rw [NameMap.get?_insert]
  · next hnone => rw [hnone, mergeValue, NameMap.get?_insert]

/-- Each variable of a table on top of another is merged on its own. -/
theorem get?_merge (vars other : Variables) (name : String) :
    (vars.merge other).get? name = mergeValue name (vars.get? name) (other.get? name) := by
  have hentries : ∀ (es : List (String × String)) (vars : Variables),
      es.Pairwise (fun a b => a.1 ≠ b.1) →
      (es.foldl (fun acc e => mergeEntry acc e.1 e.2) vars).get? name =
        mergeValue name (vars.get? name) (es.lookup name) := by
    intro es
    induction es with
    | nil => exact fun _ _ => rfl
    | cons e es ih =>
      intro vars hes
      obtain ⟨hhead, htail⟩ := List.pairwise_cons.1 hes
      rw [List.foldl_cons, ih _ htail, get?_mergeEntry, NameMap.lookup_cons_eq]
      split
      · next hkey =>
        have hnone : es.lookup name = none := by
          refine List.lookup_eq_none_iff.2 fun other hother => ?_
          simpa [hkey] using hhead other hother
        rw [hnone, hkey]
        rfl
      · rfl
  exact hentries other.entries vars (NameMap.ne_of_pairwise_lt other.sorted)

section Incremental

variable {name : String} (hname : isIncremental name = true)
include hname

/-- Words of a later source stand behind those of an earlier one. -/
theorem list_merge (vars other : Variables) :
    (vars.merge other).list name = vars.list name ++ other.list name := by
  simp only [list, Variables.value, get?_merge]
  cases vars.get? name with
  | none => cases other.get? name <;> simp [mergeValue]
  | some current =>
    cases other.get? name with
    | none => simp [mergeValue]
    | some value => simp [mergeValue, hname, words_addValue]

/-- The words of an incremental variable add up across layers. -/
theorem list_mergeAll (layers : List Variables) :
    (mergeAll layers).list name = layers.flatMap fun layer => layer.list name := by
  have hlayers : ∀ (layers : List Variables) (vars : Variables),
      (layers.foldl merge vars).list name =
        vars.list name ++ layers.flatMap fun layer => layer.list name := by
    intro layers
    induction layers with
    | nil => simp
    | cons layer layers ih =>
      intro vars
      rw [List.foldl_cons, ih, list_merge hname, List.append_assoc, List.flatMap_cons]
  exact hlayers layers NameMap.empty

/-- Of an incremental variable, layers leave the flags that their words leave on. -/
theorem list_settle (layers : List Variables) :
    (settle layers).list name =
      (finalFlags (layers.flatMap fun layer => layer.list name)).toList := by
  rw [← list_mergeAll hname layers]
  have hsettled : (settle layers).get? name = ((mergeAll layers).get? name).map settleFlags := by
    rw [settle, NameMap.get?_mapEntries]
    simp [hname]
  rcases hvalue : (mergeAll layers).get? name with _ | value
  · rw [hvalue] at hsettled
    rw [list, Variables.value, hsettled, list, Variables.value, hvalue]
    rfl
  · rw [hvalue] at hsettled
    rw [list_of_get? hsettled, list_of_get? hvalue, settleFlags]
    exact Text.words_unwords fun w hw => Text.isWord_of_mem_words (mem_of_mem_finalFlags hw)

end Incremental
end Variables
end EbuildGraph
