import EbuildGraph.Text.Split
import Mathlib.Data.List.Basic

/-!
# Parts of texts

What is cut at separators can be put together again, and what is put together with
separators is cut there.

Main results:

- Theorems {lit}`fields_intercalate` and {lit}`fields_append`: the parts of texts that are joined.
- Theorems {lit}`cut_eq_some` and {lit}`eq_append_of_cut`: the parts before and after the first
  separator.
- Theorems {lit}`append_of_dropStart` and {lit}`append_of_dropEnd`: a beginning or an ending
  and the rest make up the text.
-/

namespace EbuildGraph
namespace Text

/-! ## Parts between separators -/

/-- No part between separators holds one. -/
theorem not_mem_of_mem_fields {sep : Char} {s part : String} (h : part ∈ fields sep s) :
    sep ∉ part.toList := by
  have hchars : ∀ cs : List Char, ∀ cs' ∈ cs.splitOn sep, sep ∉ cs' := by
    intro cs
    induction cs with
    | nil => simp
    | cons c cs ih =>
      intro cs' hcs'
      rw [List.splitOn_cons_eq_if_modifyHead] at hcs'
      split at hcs'
      · rcases List.mem_cons.1 hcs' with rfl | hmem
        · exact List.not_mem_nil
        · exact ih cs' hmem
      · next hc =>
        rcases hsplit : cs.splitOn sep with _ | ⟨first, rest⟩
        · exact absurd hsplit (List.splitOn_ne_nil sep cs)
        · rw [hsplit, List.modifyHead_cons] at hcs'
          rw [hsplit] at ih
          rcases List.mem_cons.1 hcs' with rfl | hmem
          · have hfirst := ih first List.mem_cons_self
            have hne : sep ≠ c := fun heq => hc (by simp [heq])
            simp [hne, hfirst]
          · exact ih cs' (List.mem_cons_of_mem _ hmem)
  obtain ⟨cs, hcs, rfl⟩ := List.mem_map.1 h
  rw [String.toList_ofList]
  exact hchars s.toList cs hcs

/-- Parts without separators are found again between those that join them. -/
theorem fields_intercalate {sep : Char} {parts : List String}
    (hparts : ∀ part ∈ parts, sep ∉ part.toList) (hne : parts ≠ []) :
    fields sep (String.intercalate (String.singleton sep) parts) = parts := by
  have hchars : ∀ cs ∈ parts.map String.toList, sep ∉ cs := by
    intro cs hcs
    obtain ⟨part, hpart, rfl⟩ := List.mem_map.1 hcs
    exact hparts part hpart
  rw [fields, String.toList_intercalate, String.toList_singleton,
    List.splitOn_intercalate sep hchars (by simpa using hne), List.map_map]
  simp

/-- A separator between two texts separates their parts. -/
theorem fields_append {sep : Char} (s t : String) :
    fields sep (s ++ String.singleton sep ++ t) = fields sep s ++ fields sep t := by
  simp [fields, List.splitOn_append_cons_self]

theorem fields_of_not_mem {sep : Char} {s : String} (h : sep ∉ s.toList) : fields sep s = [s] := by
  simp [fields, List.splitOn_eq_singleton h]

theorem fields_ne_nil (sep : Char) (s : String) : fields sep s ≠ [] := by
  simp [fields, List.splitOn_ne_nil]

/-- The parts of a text make it up with separators between them. -/
theorem intercalate_fields (sep : Char) (s : String) :
    String.intercalate (String.singleton sep) (fields sep s) = s := by
  rw [← String.toList_inj, String.toList_intercalate, String.toList_singleton, fields,
    List.map_map]
  have hchars : (String.toList ∘ String.ofList) = id := funext fun _ => String.toList_ofList
  rw [hchars, List.map_id, List.intercalate_splitOn]

/-! ## The first separator -/

theorem eq_append_of_cut {sep : Char} {s head tail : String} (h : cut sep s = some (head, tail)) :
    s.toList = head.toList ++ sep :: tail.toList := by
  obtain ⟨parts, hparts, heq⟩ := Option.map_eq_some_iff.1 h
  obtain ⟨rfl, rfl⟩ := Prod.mk.inj heq
  rw [eq_append_of_cutChars hparts, String.toList_ofList, String.toList_ofList]

/-- What is cut off in front holds no separator. -/
theorem not_mem_of_cut {sep : Char} {s head tail : String} (h : cut sep s = some (head, tail)) :
    sep ∉ head.toList := by
  have hchars : ∀ cs front back : List Char, cutChars sep cs = some (front, back) →
      sep ∉ front := by
    intro cs
    induction cs with
    | nil => nofun
    | cons c rest ih =>
      intro front back hcut
      unfold cutChars at hcut
      split at hcut
      · cases hcut
        exact List.not_mem_nil
      · next hne =>
        obtain ⟨⟨others, _⟩, hothers, heq⟩ := Option.map_eq_some_iff.1 hcut
        cases heq
        exact List.not_mem_cons_of_ne_of_not_mem (Ne.symm hne) (ih others _ hothers)
  obtain ⟨parts, hparts, heq⟩ := Option.map_eq_some_iff.1 h
  obtain ⟨rfl, -⟩ := Prod.mk.inj heq
  rw [String.toList_ofList]
  exact hchars _ _ _ hparts

theorem cut_of_not_mem {sep : Char} {s : String} (h : sep ∉ s.toList) : cut sep s = none := by
  rw [Option.eq_none_iff_forall_ne_some]
  rintro ⟨head, tail⟩ hcut
  rw [eq_append_of_cut hcut] at h
  simp at h

/-- A text is cut behind what holds no separator. -/
theorem cut_eq_some {sep : Char} {s head tail : String}
    (hs : s.toList = head.toList ++ sep :: tail.toList) (h : sep ∉ head.toList) :
    cut sep s = some (head, tail) := by
  have hchars : ∀ cs : List Char, sep ∉ cs →
      cutChars sep (cs ++ sep :: tail.toList) = some (cs, tail.toList) := by
    intro cs
    induction cs with
    | nil => simp [cutChars]
    | cons c rest ih =>
      intro hcs
      obtain ⟨hne, hrest⟩ := not_or.1 (mt List.mem_cons.2 hcs)
      simp [cutChars, Ne.symm hne, ih hrest]
  rw [cut, hs, hchars head.toList h]
  simp

/-- What is taken from the end up to the last separator is what follows it. -/
theorem reverse_takeWhile_reverse {sep : Char} {front back : List Char} (h : sep ∉ back) :
    ((front ++ sep :: back).reverse.takeWhile (· != sep)).reverse = back := by
  have hall : ∀ c ∈ back.reverse, (c != sep) = true := by
    intro c hc
    have hne : c ≠ sep := fun heq => h (heq ▸ List.mem_reverse.1 hc)
    simpa using hne
  rw [List.reverse_append, List.reverse_cons, List.append_assoc, List.takeWhile_append_of_pos hall]
  simp

/-- Behind the last separator is what follows any separator, if it holds none. -/
theorem afterLast_append {sep : Char} {s t : String} (h : sep ∉ t.toList) :
    afterLast sep (s ++ String.singleton sep ++ t) = t := by
  rw [← String.toList_inj, afterLast, String.toList_ofList, String.toList_append,
    String.toList_append, String.toList_singleton, List.append_assoc, List.singleton_append,
    reverse_takeWhile_reverse h]

/-- Behind the last separator there is none. -/
theorem not_mem_afterLast (sep : Char) (s : String) : sep ∉ (afterLast sep s).toList := by
  rw [afterLast, String.toList_ofList, List.mem_reverse]
  intro hmem
  simpa using List.all_eq_true.1 List.all_takeWhile _ hmem

/-! ## Beginnings and endings -/

theorem append_of_dropStart {start s rest : String} (h : dropStart? start s = some rest) :
    start ++ rest = s := by
  obtain ⟨cs, hcs, rfl⟩ := Option.map_eq_some_iff.1 h
  rw [← String.toList_inj, String.toList_append, String.toList_ofList]
  exact List.append_eq_of_isPrefixOf?_eq_some hcs

theorem append_of_dropEnd {ending s rest : String} (h : dropEnd? ending s = some rest) :
    rest ++ ending = s := by
  obtain ⟨cs, hcs, rfl⟩ := Option.map_eq_some_iff.1 h
  rw [← String.toList_inj, String.toList_append, String.toList_ofList]
  exact List.append_eq_of_isSuffixOf?_eq_some hcs

theorem dropStart?_append (start rest : String) : dropStart? start (start ++ rest) = some rest := by
  have hchars : start.toList.isPrefixOf? (start.toList ++ rest.toList) = some rest.toList :=
    List.isPrefixOf?_eq_some_iff_append_eq.2 rfl
  rw [dropStart?, String.toList_append, hchars, Option.map_some, String.ofList_toList]

/-- A beginning without a character is not found beyond the first one. -/
theorem dropStart?_append_of_not_mem {start s : String} {c : Char} {rest : List Char}
    (hs : s.toList = c :: rest) (h : c ∉ start.toList) (front : String) :
    dropStart? start (front ++ s) = (dropStart? start front).map (· ++ s) := by
  have hchars : ∀ ds cs : List Char, c ∉ ds →
      ds.isPrefixOf? (cs ++ s.toList) = (ds.isPrefixOf? cs).map (· ++ s.toList) := by
    intro ds
    induction ds with
    | nil =>
      intro cs _
      rw [List.isPrefixOf?, List.isPrefixOf?, Option.map_some]
    | cons d ds ih =>
      intro cs hds
      obtain ⟨hne, hds⟩ := not_or.1 (mt List.mem_cons.2 hds)
      cases cs with
      | nil => simp [hs, List.isPrefixOf?, Ne.symm hne]
      | cons e cs =>
        rw [List.cons_append, List.isPrefixOf?, List.isPrefixOf?, ih cs hds]
        split <;> rfl
  rw [dropStart?, dropStart?, String.toList_append, hchars _ _ h, Option.map_map,
    Option.map_map]
  congr 1
  funext cs
  simp [String.ofList_append]

theorem dropEnd?_append (rest ending : String) : dropEnd? ending (rest ++ ending) = some rest := by
  have hchars : ending.toList.isSuffixOf? (rest.toList ++ ending.toList) = some rest.toList :=
    List.isSuffixOf?_eq_some_iff_append_eq.2 rfl
  rw [dropEnd?, String.toList_append, hchars, Option.map_some, String.ofList_toList]

/-- A text does not end in what it does not hold. -/
theorem dropEnd?_of_not_mem {ending s : String} {c : Char} (hc : c ∈ ending.toList)
    (h : c ∉ s.toList) : dropEnd? ending s = none := by
  rw [Option.eq_none_iff_forall_ne_some]
  intro rest hrest
  rw [← append_of_dropEnd hrest, String.toList_append, List.mem_append, not_or] at h
  exact h.2 hc

end Text
end EbuildGraph
