import EbuildGraph.Metadata.Cache
import EbuildGraph.Proofs.Success
import EbuildGraph.Proofs.Text.Split

/-!
# Tables as cache entries

A table of variables is written one variable to a line, in any order, and read back from it
when no line is cut short: a value holds no line feed and does not end in a blank, and a name
holds no equal sign.

Main definitions:

- {lit}`Text.IsTextOf`: whether a text consists of given lines.
- {lit}`CachedMetadata.lineOf`: the line of a variable.
- {lit}`Variables.IsCacheable`: whether a table can be read back from its lines.

Main results:

- Theorem {lit}`Text.lines_of_isTextOf`: the lines of a text that was made of lines.
- Theorem {lit}`CachedMetadata.parse_of_isTextOf`: the entry that the lines of a table are.
-/

namespace EbuildGraph

/-! ## Lines -/

namespace Text

/-- Whether a text consists of the given lines.  The last line feed may be missing. -/
def IsTextOf (lines : List String) (s : String) : Prop :=
  s = String.intercalate "\n" lines ∨ s = String.intercalate "\n" (lines ++ [""])

/-- Whether a text does not end in a blank. -/
def IsTrimmed (s : String) : Prop :=
  ∀ c ∈ s.toList.getLast?, isBlank c = false

instance : DecidablePred IsTrimmed :=
  fun s => decidable_of_iff (s.toList.getLast?.any isBlank = false) <| by
    cases hlast : s.toList.getLast? <;> simp [IsTrimmed, hlast]

/-- From the end of a trimmed text there is nothing to trim. -/
theorem IsTrimmed.trimEnd {s : String} (h : IsTrimmed s) : trimEnd s = s := by
  have hchars : dropEndWhile isBlank s.toList = s.toList := by
    rw [dropEndWhile]
    rcases hreverse : s.toList.reverse with _ | ⟨c, cs⟩
    · rw [List.reverse_eq_nil_iff.1 hreverse]
      rfl
    · have hc : isBlank c = false := by
        refine h c ?_
        rw [Option.mem_def, List.getLast?_eq_head?_reverse, hreverse, List.head?_cons]
      rw [List.dropWhile_cons_of_neg (by simp [hc]), ← hreverse, List.reverse_reverse]
  rw [Text.trimEnd, hchars, String.ofList_toList]

/-- A trimmed text has no carriage return at its end. -/
theorem IsTrimmed.dropReturn {s : String} (h : IsTrimmed s) :
    dropReturn s.toList = s.toList := by
  unfold Text.dropReturn
  split
  · next cs hreverse =>
    have hreturn : isBlank '\r' = false := by
      refine h '\r' ?_
      rw [Option.mem_def, List.getLast?_eq_head?_reverse, hreverse, List.head?_cons]
    cases hreturn
  · rfl

section Lines

variable {ls : List String} (htrimmed : ∀ l ∈ ls, IsTrimmed l)
include htrimmed

theorem endLines_append_empty : endLines (ls.map String.toList ++ [[]]) = ls.map String.toList := by
  induction ls with
  | nil => rfl
  | cons l ls ih =>
    obtain ⟨hl, hls⟩ := List.forall_mem_cons.1 htrimmed
    have hne : ls.map String.toList ++ [[]] ≠ [] := by simp
    obtain ⟨next, others, hnext⟩ := List.exists_cons_of_ne_nil hne
    rw [List.map_cons, List.cons_append, hnext, endLines, ← hnext, ih hls, hl.dropReturn]
    exact fun heq => List.cons_ne_nil _ _ heq

/-- Trimmed lines stay as they are where each has a character at least. -/
theorem endLines_eq_self (hne : ∀ l ∈ ls, l ≠ "") :
    endLines (ls.map String.toList) = ls.map String.toList := by
  induction ls with
  | nil => rfl
  | cons l ls ih =>
    obtain ⟨hl, hls⟩ := List.forall_mem_cons.1 htrimmed
    obtain ⟨hempty, hempties⟩ := List.forall_mem_cons.1 hne
    cases ls with
    | nil =>
      have hchars : l.toList.isEmpty = false := by
        rw [Bool.eq_false_iff]
        intro h
        exact hempty (String.toList_inj.1 (List.isEmpty_iff.1 h))
      simp [endLines, hchars]
    | cons next others =>
      rw [List.map_cons, List.map_cons, endLines, ← List.map_cons, ih hls hempties,
        hl.dropReturn]
      exact fun heq => List.cons_ne_nil _ _ heq

omit htrimmed in
/-- Lines without line feeds are split where they were joined. -/
theorem splitOn_intercalate {parts : List String} (hparts : ∀ l ∈ parts, '\n' ∉ l.toList)
    (hne : parts ≠ []) :
    (String.intercalate "\n" parts).toList.splitOn '\n' = parts.map String.toList := by
  have hfields := congrArg (List.map String.toList) (fields_intercalate hparts hne)
  have hchars : (String.toList ∘ String.ofList) = id := funext fun _ => String.toList_ofList
  rw [fields, List.map_map, hchars, List.map_id] at hfields
  exact hfields

/-- The lines of a text that was made of lines. -/
theorem lines_of_isTextOf {s : String} (hne : ∀ l ∈ ls, l ≠ "")
    (hfeed : ∀ l ∈ ls, '\n' ∉ l.toList) (h : IsTextOf ls s) : lines s = ls := by
  have hchars : (String.ofList ∘ String.toList) = id := funext fun _ => String.ofList_toList
  rcases h with rfl | rfl
  · by_cases hnil : ls = []
    · rw [hnil]
      rfl
    · rw [lines, splitOn_intercalate hfeed hnil, endLines_eq_self htrimmed hne, List.map_map,
        hchars, List.map_id]
  · have hparts : ∀ l ∈ ls ++ [""], '\n' ∉ l.toList := by
      rw [List.forall_mem_append]
      exact ⟨hfeed, fun l hl => List.mem_singleton.1 hl ▸ List.not_mem_nil⟩
    have hempty : (ls ++ [""]).map String.toList = ls.map String.toList ++ [[]] := by simp
    rw [lines, splitOn_intercalate hparts (by simp), hempty, endLines_append_empty htrimmed,
      List.map_map, hchars, List.map_id]

end Lines
end Text

/-! ## Lines of variables -/

/-- Whether a table can be read back from its lines: its EAPI is supported, no name is one of
those that stand for the checksums, and no value holds a line feed or ends in a blank. -/
structure Variables.IsCacheable (vars : Variables) : Prop where
  eapi : ∃ e, Eapi.ofVariable (vars.get? "EAPI") = .ok e
  name_ne : ∀ e ∈ vars.entries, e.1 ≠ "_md5_" ∧ e.1 ≠ "_eclasses_"
  isTrimmed : ∀ e ∈ vars.entries, Text.IsTrimmed e.2
  not_mem : ∀ e ∈ vars.entries, '\n' ∉ e.2.toList

namespace CachedMetadata

/-- The line of a variable. -/
def lineOf (e : String × String) : String :=
  e.1 ++ "=" ++ e.2

/-- The line of a trimmed value is trimmed. -/
theorem isTrimmed_lineOf {e : String × String} (h : Text.IsTrimmed e.2) :
    Text.IsTrimmed (lineOf e) := by
  intro c hc
  have hline : (lineOf e).toList = e.1.toList ++ '=' :: e.2.toList := by simp [lineOf]
  rw [hline, Option.mem_def, List.getLast?_append_cons, List.getLast?_cons] at hc
  obtain rfl := Option.some.inj hc
  rcases hlast : e.2.toList.getLast? with _ | last
  · rfl
  · exact h last hlast

/-- A line adds its variable to an entry. -/
theorem addLine_lineOf {e : String × String} (hname : '=' ∉ e.1.toList)
    (hne : e.1 ≠ "_md5_" ∧ e.1 ≠ "_eclasses_") (hvalue : Text.IsTrimmed e.2)
    (entry : CachedMetadata) :
    entry.addLine (lineOf e) = { entry with vars := entry.vars.insert e.1 e.2 } := by
  have hcut : Text.cut '=' (lineOf e) = some (e.1, e.2) :=
    Text.cut_eq_some (by simp [lineOf]) hname
  rw [addLine, (isTrimmed_lineOf hvalue).trimEnd, hcut]
  simp only [if_neg hne.1, if_neg hne.2]

/-- Lines add their variables one after another. -/
theorem foldl_addLine {es : List (String × String)} (hname : ∀ e ∈ es, '=' ∉ e.1.toList)
    (hne : ∀ e ∈ es, e.1 ≠ "_md5_" ∧ e.1 ≠ "_eclasses_")
    (hvalue : ∀ e ∈ es, Text.IsTrimmed e.2) (entry : CachedMetadata) :
    (es.map lineOf).foldl addLine entry = { entry with vars := entry.vars.insertAll es } := by
  induction es generalizing entry with
  | nil => rfl
  | cons e es ih =>
    rw [List.forall_mem_cons] at hname hne hvalue
    rw [List.map_cons, List.foldl_cons, addLine_lineOf hname.1 hne.1 hvalue.1,
      ih hname.2 hne.2 hvalue.2]
    rfl

end CachedMetadata

/-- The entries of a table make up the table in any order. -/
theorem NameMap.ofList_of_perm {α : Type} {m : NameMap α} {es : List (String × α)}
    (h : es.Perm m.entries) : NameMap.ofList es = m := by
  have hes : es.Pairwise fun a b => a.1 ≠ b.1 :=
    (h.pairwise_iff fun hne => Ne.symm hne).2 (NameMap.ne_of_pairwise_lt m.sorted)
  refine NameMap.ext_get? fun name => Option.ext fun value => ?_
  rw [NameMap.get?_ofList_eq_some_iff hes, NameMap.get?_eq_some_iff, h.mem_iff]

namespace CachedMetadata

/-- The lines of a table, in any order, are a cache entry with this table and no eclasses. -/
theorem parse_of_isTextOf {vars : Variables} (h : vars.IsCacheable)
    (hnames : ∀ e ∈ vars.entries, '=' ∉ e.1.toList ∧ '\n' ∉ e.1.toList)
    {es : List (String × String)} (hes : es.Perm vars.entries) {s : String}
    (hs : Text.IsTextOf (es.map lineOf) s) : parse s = .ok ⟨vars, none, []⟩ := by
  have hall : ∀ {p : String × String → Prop}, (∀ e ∈ vars.entries, p e) → ∀ e ∈ es, p e :=
    fun hp e he => hp e (hes.mem_iff.1 he)
  have hlines : Text.lines s = es.map lineOf := by
    refine Text.lines_of_isTextOf ?_ ?_ ?_ hs
    · exact List.forall_mem_map.2 (hall fun e he => isTrimmed_lineOf (h.isTrimmed e he))
    · refine List.forall_mem_map.2 fun e _ => ?_
      simp [lineOf]
    · refine List.forall_mem_map.2 (hall fun e he => ?_)
      simp [lineOf, (hnames e he).2, h.not_mem e he]
  have hentry : (Text.lines s).foldl addLine empty = ⟨vars, none, []⟩ := by
    rw [hlines, foldl_addLine (hall fun e he => (hnames e he).1) (hall h.name_ne)
      (hall h.isTrimmed)]
    exact congrArg (fun table => (⟨table, none, []⟩ : CachedMetadata))
      (NameMap.ofList_of_perm hes)
  obtain ⟨eapi, heapi⟩ := h.eapi
  rw [parse, hentry]
  simp only [heapi]
  rfl

/-- Without eclasses nothing stands in for {lit}`INHERITED`. -/
theorem toVars_of_no_eclasses (vars : Variables) (md5 : Option String) :
    toVars ⟨vars, md5, []⟩ = vars :=
  if_pos (by simp)

end CachedMetadata
end EbuildGraph
