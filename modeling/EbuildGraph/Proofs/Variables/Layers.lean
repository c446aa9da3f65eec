import EbuildGraph.Proofs.Variables

/-!
# What layers amount to

Layers are told name by name.  A variable that does not add up has the value of the last layer
that has one, and a variable that adds up has the flags that the words of all layers leave on.
What some layers amount to takes their place below further layers: it holds no word that turns
anything off, so behind it a flag counts as on exactly when it did behind the layers.

Main definition:

- {lit}`Variables.IsLastWritten`: a table in which the last word about everything counts.

Main results:

- Theorem {lit}`turnedOn_append`: the flags on after words and further words.
- Theorem {lit}`Variables.IsLastWritten.unique`: layers leave one such table.
- Theorem {lit}`Variables.settle_obeys_last_writer`: it is the one that layers amount to, and
  layers may be settled before others are put on top.
-/

namespace EbuildGraph

/-! ## Words behind words -/

/-- A word stays behind further words when it is among them, or when they take nothing back. -/
theorem endsOn_append {word : String} {undo first second : List String} :
    EndsOn word undo (first ++ second) ↔
      EndsOn word undo second ∨ (∀ w ∈ second, w ∉ undo) ∧ EndsOn word undo first := by
  induction second using List.reverseRecOn with
  | nil => simp [not_endsOn_nil]
  | append_singleton second last ih =>
    rw [← List.append_assoc, endsOn_append_singleton, endsOn_append_singleton, ih,
      List.forall_mem_append, List.forall_mem_singleton]
    tauto

/-- Further words turn a flag on, or none of them turns off what the first ones left on. -/
theorem turnedOn_append {flag : String} {first second : List String} :
    TurnedOn flag (first ++ second) ↔ TurnedOn flag second ∨
      (∀ w ∈ second, w ∉ ["-" ++ flag, "-*"]) ∧ TurnedOn flag first :=
  endsOn_append

theorem TurnedOn.mem {flag : String} {words : List String} (h : TurnedOn flag words) :
    flag ∈ words := by
  obtain ⟨before, after, rfl, _⟩ := h
  exact List.mem_append_right before List.mem_cons_self

/-- No flag that is on begins with a hyphen. -/
theorem isFlag_of_mem_finalFlags {flag : String} {words : List String}
    (h : flag ∈ finalFlags words) : IsFlag flag := by
  induction words using List.reverseRecOn with
  | nil => exact absurd h (NameSet.not_mem_empty flag)
  | append_singleton words last ih =>
    rw [finalFlags_append_singleton] at h
    unfold applyFlag at h
    split at h
    · exact absurd h (NameSet.not_mem_empty flag)
    split at h
    · exact ih (NameSet.mem_erase.1 h).1
    · next hhyphen =>
      rcases NameSet.mem_insert.1 h with rfl | hrest
      · intro hhead
        obtain ⟨name, hname⟩ := List.head?_eq_some_iff.1 hhead
        exact hhyphen name hname
      · exact ih hrest

/-- Flags that are on turn nothing off, so as words they leave themselves on. -/
theorem turnedOn_finalFlags_iff {flag : String} {words : List String} :
    TurnedOn flag (finalFlags words).toList ↔ flag ∈ finalFlags words := by
  constructor
  · exact TurnedOn.mem
  · intro h
    -- No word behind the flag begins with a hyphen, so none takes it back.
    obtain ⟨before, after, heq⟩ := List.append_of_mem (NameSet.mem_iff_mem_toList.1 h)
    refine ⟨before, after, heq, fun w hw hundo => ?_⟩
    have hmem : w ∈ finalFlags words := by
      rw [NameSet.mem_iff_mem_toList, heq]
      exact List.mem_append_right before (List.mem_cons_of_mem flag hw)
    have hflag := isFlag_of_mem_finalFlags hmem
    rcases List.mem_cons.1 hundo with rfl | hundo
    · exact hflag.ne_hyphen_append flag rfl
    · exact hflag.ne_hyphen_append "*" (List.mem_singleton.1 hundo)

namespace Variables

/-! ## Tables in which the last word counts -/

/-- A table in which the last word of some layers about everything counts: it has the variables
of all layers, of a variable that is replaced the last value, and of a variable that adds up
those flags, sorted, that the words of the layers one after another leave on. -/
structure IsLastWritten (layers : List Variables) (table : Variables) : Prop where
  mem_names : ∀ name, name ∈ table.names ↔ ∃ layer ∈ layers, name ∈ layer.names
  replaced : ∀ name, isIncremental name = false →
    table.get? name = (layers.filterMap fun layer => layer.get? name).getLast?
  added : ∀ name value, isIncremental name = true → table.get? name = some value →
    ∃ flags : List String, value = Text.unwords flags ∧ flags.Pairwise (· < ·) ∧
      ∀ flag, flag ∈ flags ↔
        IsFlag flag ∧ TurnedOn flag (layers.flatMap fun layer => layer.list name)

/-- A variable has no value if it is none of the names. -/
theorem get?_eq_none_iff {vars : Variables} {name : String} :
    vars.get? name = none ↔ name ∉ vars.names := by
  rw [NameMap.mem_names_iff, Option.eq_none_iff_forall_ne_some, not_exists]

/-- There is one such table. -/
theorem IsLastWritten.unique {layers : List Variables} {table other : Variables}
    (h : IsLastWritten layers table) (hother : IsLastWritten layers other) : table = other := by
  refine NameMap.ext_get? fun name => ?_
  cases hname : isIncremental name with
  | false => rw [h.replaced name hname, hother.replaced name hname]
  | true =>
    have hnames : name ∈ table.names ↔ name ∈ other.names :=
      (h.mem_names name).trans (hother.mem_names name).symm
    cases hvalue : table.get? name with
    | none => rw [eq_comm, get?_eq_none_iff, ← hnames, ← get?_eq_none_iff, hvalue]
    | some value =>
      obtain ⟨value', hvalue'⟩ :=
        NameMap.mem_names_iff.1 (hnames.1 (NameMap.mem_names_of_get? hvalue))
      obtain ⟨flags, rfl, hsorted, hflags⟩ := h.added name value hname hvalue
      obtain ⟨flags', rfl, hsorted', hflags'⟩ := hother.added name value' hname hvalue'
      have heq : flags = flags' := NameSet.eq_of_mem_iff hsorted hsorted' fun flag =>
        (hflags flag).trans (hflags' flag).symm
      rw [hvalue', heq]

/-! ## Layers merged and settled -/

/-- The last layer is merged last. -/
theorem mergeAll_append_singleton (layers : List Variables) (last : Variables) :
    mergeAll (layers ++ [last]) = (mergeAll layers).merge last := by
  rw [mergeAll, List.foldl_append]
  rfl

/-- A merged environment has the names of both. -/
theorem mem_names_merge_iff {vars other : Variables} {name : String} :
    name ∈ (vars.merge other).names ↔ name ∈ vars.names ∨ name ∈ other.names := by
  simp only [NameMap.mem_names_iff, get?_merge]
  cases vars.get? name <;> cases other.get? name <;> simp [mergeValue]

/-- Merged layers have the names that some layer has. -/
theorem mem_names_mergeAll_iff {layers : List Variables} {name : String} :
    name ∈ (mergeAll layers).names ↔ ∃ layer ∈ layers, name ∈ layer.names := by
  induction layers using List.reverseRecOn with
  | nil => simp [mergeAll, NameMap.names, NameMap.empty]
  | append_singleton layers last ih =>
    rw [mergeAll_append_singleton, mem_names_merge_iff, ih]
    simp [or_and_right, exists_or]

/-- A variable that does not add up has the last of its values. -/
theorem get?_mergeAll {name : String} (hname : isIncremental name = false)
    (layers : List Variables) :
    (mergeAll layers).get? name = (layers.filterMap fun layer => layer.get? name).getLast? := by
  induction layers using List.reverseRecOn with
  | nil => rfl
  | append_singleton layers last ih =>
    rw [mergeAll_append_singleton, get?_merge, ih, List.filterMap_append, List.getLast?_append]
    cases hlast : last.get? name with
    | none => simp [hlast, mergeValue]
    | some value =>
      cases (layers.filterMap fun layer => layer.get? name).getLast? with
      | none => simp [hlast, mergeValue]
      | some current => simp [hlast, mergeValue, hname]

/-- Settling resolves the flags of incremental variables and nothing else. -/
theorem get?_settle (layers : List Variables) (name : String) :
    (settle layers).get? name = ((mergeAll layers).get? name).map fun value =>
      if isIncremental name then settleFlags value else value :=
  NameMap.get?_mapEntries _ _ _

/-- Settling leaves the names of the layers. -/
theorem mem_names_settle_iff {layers : List Variables} {name : String} :
    name ∈ (settle layers).names ↔ ∃ layer ∈ layers, name ∈ layer.names := by
  rw [← mem_names_mergeAll_iff, NameMap.mem_names_iff, NameMap.mem_names_iff]
  simp [get?_settle]

/-- In what layers amount to, the last word counts. -/
theorem isLastWritten_settle (layers : List Variables) :
    IsLastWritten layers (settle layers) where
  mem_names _ := mem_names_settle_iff
  replaced name hname := by
    rw [get?_settle, ← get?_mergeAll hname]
    simp [hname]
  added name value hname hvalue := by
    rw [get?_settle, Option.map_eq_some_iff] at hvalue
    obtain ⟨merged, hmerged, rfl⟩ := hvalue
    have hwords := list_mergeAll hname layers
    rw [list_of_get? hmerged] at hwords
    refine ⟨(finalFlags (Text.words merged)).toList, by rw [if_pos hname, settleFlags],
      (finalFlags (Text.words merged)).sorted, fun flag => ?_⟩
    rw [← hwords, ← NameSet.mem_iff_mem_toList]
    constructor
    · intro h
      have hflag := isFlag_of_mem_finalFlags h
      exact ⟨hflag, (mem_finalFlags_iff hflag).1 h⟩
    · rintro ⟨hflag, hon⟩
      exact (mem_finalFlags_iff hflag).2 hon

/-! ## Layers settled in parts -/

/-- The words that layers amount to leave on what their own words do. -/
theorem turnedOn_list_settle_iff {name flag : String} (hname : isIncremental name = true)
    (hflag : IsFlag flag) (layers : List Variables) :
    TurnedOn flag ((settle layers).list name) ↔
      TurnedOn flag (layers.flatMap fun layer => layer.list name) := by
  rw [list_settle hname, turnedOn_finalFlags_iff, mem_finalFlags_iff hflag]

/-- Below further layers, settled layers count as the layers do. -/
theorem IsLastWritten.of_settle {layers others : List Variables} {table : Variables}
    (h : IsLastWritten (settle layers :: others) table) :
    IsLastWritten (layers ++ others) table where
  mem_names name := by
    rw [h.mem_names, List.exists_mem_cons_iff, mem_names_settle_iff]
    simp [or_and_right, exists_or]
  replaced name hname := by
    rw [h.replaced name hname, List.filterMap_append, List.getLast?_append,
      ← (isLastWritten_settle layers).replaced name hname]
    cases hvalue : (settle layers).get? name with
    | none => simp [hvalue]
    | some value => simp [hvalue, List.getLast?_cons]
  added name value hname hvalue := by
    obtain ⟨flags, heq, hsorted, hflags⟩ := h.added name value hname hvalue
    refine ⟨flags, heq, hsorted, fun flag => ?_⟩
    rw [hflags, List.flatMap_cons, List.flatMap_append]
    refine and_congr_right fun hflag => ?_
    rw [turnedOn_append, turnedOn_append, turnedOn_list_settle_iff hname hflag]

/-- In what layers amount to, the last word about each variable and each flag counts.  So layers
amount to the same when some of them, from the lowest up, are settled first. -/
theorem settle_obeys_last_writer (layers : List Variables) :
    IsLastWritten layers (settle layers) ∧
      ∀ others, settle (layers ++ others) = settle (settle layers :: others) := by
  refine ⟨isLastWritten_settle layers, fun others => ?_⟩
  have hparts := (isLastWritten_settle (settle layers :: others)).of_settle
  exact (isLastWritten_settle (layers ++ others)).unique hparts

end Variables
end EbuildGraph
