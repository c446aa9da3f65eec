import EbuildGraph.Proofs.Grammar

/-!
# Words of texts

Words stand between blanks, so a blank between two texts keeps their words apart, and words
joined with spaces are the words of the result.

Main definition:

- {lit}`IsWord`: whether a text is one word.

Main results:

- Theorem {lit}`words_append_space`: the words of two texts with a space between them.
- Theorem {lit}`words_unwords`: words that were joined are found again.
-/

namespace EbuildGraph
namespace Text

/-- Whether a text is one word: it is not empty and holds no blank. -/
def IsWord (w : String) : Prop :=
  w ≠ "" ∧ ∀ c ∈ w.toList, isBlank c = false

/-! ## Runs -/

theorem runs_append_cons {p : Char → Bool} {c : Char} (h : p c = true) (cs ds : List Char) :
    runs p (cs ++ c :: ds) = runs p cs ++ runs p ds := by
  rw [runs, List.splitOnP_append_cons cs ds h, List.filter_append, runs, runs]

theorem runs_of_forall_not {p : Char → Bool} {cs : List Char} (hne : cs ≠ [])
    (h : ∀ c ∈ cs, p c = false) : runs p cs = [cs] := by
  rw [runs, List.splitOnP_eq_singleton fun c hc => by simp [h c hc]]
  simp [hne]

/-- A run between separators holds none of them. -/
theorem not_of_mem_splitOnP {p : Char → Bool} {cs run : List Char} (h : run ∈ cs.splitOnP p) :
    ∀ c ∈ run, p c = false := by
  induction cs generalizing run with
  | nil =>
    obtain rfl : run = [] := by simpa using h
    exact nofun
  | cons c cs ih =>
    rw [List.splitOnP_cons_eq_if_modifyHead] at h
    split at h
    · rcases List.mem_cons.1 h with rfl | h
      · exact nofun
      · exact ih h
    · next hc =>
      obtain ⟨first, rest, hruns⟩ := List.exists_cons_of_ne_nil (List.splitOnP_ne_nil p cs)
      rw [hruns, List.modifyHead_cons] at h
      rw [hruns] at ih
      rcases List.mem_cons.1 h with rfl | hrest
      · exact List.forall_mem_cons.2 ⟨by simpa using hc, ih List.mem_cons_self⟩
      · exact ih (List.mem_cons_of_mem first hrest)

/-! ## Words -/

theorem isWord_of_mem_words {s w : String} (h : w ∈ words s) : IsWord w := by
  obtain ⟨run, hrun, rfl⟩ := List.mem_map.1 h
  obtain ⟨hmem, hne⟩ := List.mem_filter.1 hrun
  constructor
  · intro hempty
    rw [← String.toList_inj, String.toList_ofList] at hempty
    simp [hempty] at hne
  · rw [String.toList_ofList]
    exact not_of_mem_splitOnP hmem

@[simp]
theorem words_empty : words "" = [] :=
  rfl

theorem words_append_space (s t : String) : words (s ++ " " ++ t) = words s ++ words t := by
  have hchars : (s ++ " " ++ t).toList = s.toList ++ ' ' :: t.toList := by simp
  have hspace : isBlank ' ' = true := by decide
  rw [words, hchars, runs_append_cons hspace, List.map_append, words, words]

theorem words_of_isWord {w : String} (h : IsWord w) : words w = [w] := by
  have hne : w.toList ≠ [] := by
    intro hempty
    exact h.1 (String.toList_inj.1 (hempty.trans rfl))
  rw [words, runs_of_forall_not hne h.2, List.map_singleton, String.ofList_toList]

/-- Words that were joined are found again. -/
theorem words_unwords {ws : List String} (h : ∀ w ∈ ws, IsWord w) : words (unwords ws) = ws := by
  have hspace : isBlank ' ' = true := by decide
  have hspaced : ∀ (w : String) (rest : List String), (∀ v ∈ w :: rest, IsWord v) →
      (runs isBlank (w.toList ++ spaced rest)).map String.ofList = w :: rest := by
    intro w rest hall
    induction rest generalizing w with
    | nil =>
      rw [spaced_nil, List.append_nil]
      exact words_of_isWord (hall w List.mem_cons_self)
    | cons next rest ih =>
      obtain ⟨hw, hrest⟩ := List.forall_mem_cons.1 hall
      have hword := words_of_isWord hw
      rw [words] at hword
      rw [spaced_cons, runs_append_cons hspace, List.map_append, hword, ih next hrest]
      rfl
  cases ws with
  | nil => rfl
  | cons w rest =>
    rw [words, toList_unwords_cons]
    exact hspaced w rest h

end Text
end EbuildGraph
