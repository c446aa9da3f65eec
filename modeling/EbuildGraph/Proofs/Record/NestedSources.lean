import EbuildGraph.Proofs.Text.Split
import EbuildGraph.Record.NestedSources
import Mathlib.Data.List.Induction

/-!
# Sources nested in others

In order of their names, the directories that begin with the name of another stand together
right behind it: whatever comes between a name and a longer one that begins with it begins
with it too.  Looking on from a directory until the first name that does not begin with it
therefore finds all directories below.  Sources are added one at a time, and sorting the list
again after each gives what sorting it once at the end does.

Main definitions:

- {lit}`listedDirectories`, {lit}`liesBelow`, {lit}`nestedIn`: the directories of all sources and
  those below one of them, told without looking through them in order.
- {lit}`withNested`: a list of sources with those nested in them.

Main results:

- Theorem {lit}`nestedBehind_eq_filter`: the search that stops early misses nothing.
- Theorem {lit}`pairwise_lt_withNested`: adding nested sources keeps sources in order.
- Theorem {lit}`get?_addNestedSources`: of each record only the local sources change.
-/

namespace EbuildGraph
namespace Records

/-! ## Names that begin with another -/

/-- What comes between a name and one that begins with it begins with it too. -/
theorem prefix_of_between {as bs cs : List Char} (hab : as < bs) (hbc : bs < cs)
    (h : as <+: cs) : as <+: bs := by
  induction as generalizing bs cs with
  | nil => exact List.nil_prefix
  | cons a as ih =>
    obtain ⟨rest, rfl⟩ := h
    cases bs with
    | nil => exact absurd hab (List.not_lt_nil _)
    | cons b bs =>
      rw [List.cons_append, List.cons_lt_cons_iff] at hbc
      rw [List.cons_lt_cons_iff] at hab
      rcases hab with hab | ⟨rfl, hab⟩
      · rcases hbc with hbc | ⟨rfl, -⟩
        · exact absurd hbc (Nat.lt_asymm hab)
        · exact absurd hab (Nat.lt_irrefl _)
      · rcases hbc with hbc | ⟨-, hbc⟩
        · exact absurd hbc (Nat.lt_irrefl _)
        · exact List.cons_prefix_cons.2 ⟨rfl, ih hab hbc (List.prefix_append as rest)⟩

/-- A name comes before those that go on behind it. -/
theorem lt_append_cons (as : List Char) (c : Char) (rest : List Char) : as < as ++ c :: rest := by
  induction as with
  | nil => exact List.nil_lt_cons c rest
  | cons a as ih => exact List.cons_lt_cons_iff.2 (Or.inr ⟨rfl, ih⟩)

/-- Whether a directory lies below another one. -/
def liesBelow (directory parent : String) : Bool :=
  (parent ++ "/").toList.isPrefixOf directory.toList

/-- One directory lies below another if its text goes on behind a slash. -/
theorem liesBelow_iff {directory parent : String} :
    liesBelow directory parent = true ↔
      ∃ rest, directory.toList = parent.toList ++ '/' :: rest := by
  have hslash : (parent ++ "/").toList = parent.toList ++ ['/'] := by simp
  rw [liesBelow, List.isPrefixOf_iff_prefix, hslash]
  constructor
  · rintro ⟨rest, hrest⟩
    exact ⟨rest, by rw [← hrest, List.append_assoc, List.singleton_append]⟩
  · rintro ⟨rest, hrest⟩
    exact ⟨rest, by rw [hrest, List.append_assoc, List.singleton_append]⟩

/-- A directory comes before those below it. -/
theorem lt_of_liesBelow {directory parent : String} (h : liesBelow directory parent = true) :
    parent < directory := by
  obtain ⟨rest, hrest⟩ := liesBelow_iff.1 h
  rw [String.lt_iff, hrest]
  exact lt_append_cons parent.toList '/' rest

/-- Nesting of directories is transitive, so that a chain of them is closed at once. -/
theorem liesBelow_trans {a b c : String} (hab : liesBelow a b = true)
    (hbc : liesBelow b c = true) : liesBelow a c = true := by
  obtain ⟨front, hfront⟩ := liesBelow_iff.1 hab
  obtain ⟨rest, hrest⟩ := liesBelow_iff.1 hbc
  exact liesBelow_iff.2 ⟨rest ++ '/' :: front, by rw [hfront, hrest, List.append_assoc,
    List.cons_append]⟩

/-! ## The search behind a directory -/

/-- Of names in order behind a directory, the search finds all that lie below it: past the
first name that does not begin with the directory there is none. -/
theorem nestedBehind_eq_filter {parent : String} {behind : List String}
    (h : (parent :: behind).Pairwise (· < ·)) :
    nestedBehind parent behind = behind.filter fun d => liesBelow d parent := by
  induction behind with
  | nil => rfl
  | cons child behind ih =>
    obtain ⟨hparent, hsorted⟩ := List.pairwise_cons.1 h
    obtain ⟨hchild, hbehind⟩ := List.pairwise_cons.1 hsorted
    have hrest := ih (List.pairwise_cons.2 ⟨fun d hd => hparent d (List.mem_cons_of_mem _ hd),
      hbehind⟩)
    unfold nestedBehind
    split
    · next hstart =>
      have hnone : ∀ d ∈ child :: behind, ¬liesBelow d parent = true := by
        intro d hd hbelow
        obtain ⟨rest, hrest⟩ := liesBelow_iff.1 hbelow
        have hprefix : parent.toList <+: d.toList := ⟨'/' :: rest, hrest.symm⟩
        have hfirst : parent.toList <+: child.toList := by
          rcases List.mem_cons.1 hd with rfl | hd
          · exact hprefix
          · exact prefix_of_between (String.lt_iff.1 (hparent child List.mem_cons_self))
              (String.lt_iff.1 (hchild d hd)) hprefix
        obtain ⟨tail, htail⟩ := hfirst
        rw [List.isPrefixOf?_eq_some_iff_append_eq.2 htail] at hstart
        cases hstart
      exact (List.filter_eq_nil_iff.2 hnone).symm
    · next tail hstart =>
      have hbelow : liesBelow child parent = true :=
        liesBelow_iff.2 ⟨tail, (List.append_eq_of_isPrefixOf?_eq_some hstart).symm⟩
      rw [hrest, List.filter_cons, if_pos hbelow]
    · next tail hother hstart =>
      have hbelow : ¬liesBelow child parent = true := by
        intro hbelow
        obtain ⟨rest, hchars⟩ := liesBelow_iff.1 hbelow
        rw [List.isPrefixOf?_eq_some_iff_append_eq.2 hchars.symm] at hstart
        exact hother rest (Option.some.inj hstart).symm
      rw [hrest, List.filter_cons, if_neg hbelow]

/-- The owners of a directory gain the listed directories below it. -/
theorem mem_additions_iff {owners : List (String × List String)}
    (h : owners.Pairwise fun a b => a.1 < b.1) {label source : String} :
    (label, source) ∈ additions owners ↔ ∃ parent labels child, (parent, labels) ∈ owners ∧
      label ∈ labels ∧ separateDirectories.contains parent = false ∧
      child ∈ owners.map Prod.fst ∧ liesBelow child parent = true ∧
      source = child ++ sourceEnding := by
  induction owners with
  | nil => simp [additions]
  | cons entry behind ih =>
    obtain ⟨first, firstLabels⟩ := entry
    obtain ⟨hfirst, hbehind⟩ := List.pairwise_cons.1 h
    have hsorted : (first :: behind.map Prod.fst).Pairwise (· < ·) :=
      List.pairwise_cons.2 ⟨List.forall_mem_map.2 hfirst, List.pairwise_map.2 hbehind⟩
    rw [additions, List.mem_append, ih hbehind]
    constructor
    · rintro (hmem | ⟨parent, labels, child, hparent, hlabel, hseparate, hchild, hbelow, heq⟩)
      · obtain ⟨child, hchild, hmem⟩ := List.mem_flatMap.1 hmem
        obtain ⟨owner, howner, heq⟩ := List.mem_map.1 hmem
        obtain ⟨rfl, rfl⟩ := Prod.mk.inj heq
        split at hchild
        · exact absurd hchild List.not_mem_nil
        next hseparate =>
        rw [nestedBehind_eq_filter hsorted, List.mem_filter] at hchild
        exact ⟨first, firstLabels, child, List.mem_cons_self, howner, by simpa using hseparate,
          List.mem_cons_of_mem _ hchild.1, hchild.2, rfl⟩
      · exact ⟨parent, labels, child, List.mem_cons_of_mem _ hparent, hlabel, hseparate,
          List.mem_cons_of_mem _ hchild, hbelow, heq⟩
    · rintro ⟨parent, labels, child, hparent, hlabel, hseparate, hchild, hbelow, rfl⟩
      rcases List.mem_cons.1 hparent with heq | hlater
      · left
        obtain ⟨rfl, rfl⟩ := Prod.mk.inj heq
        have hbehindParent : child ∈ behind.map Prod.fst := by
          rcases List.mem_cons.1 hchild with rfl | hchild
          · exact absurd (lt_of_liesBelow hbelow) (String.lt_irrefl _)
          · exact hchild
        refine List.mem_flatMap.2 ⟨child, ?_, List.mem_map.2 ⟨label, hlabel, rfl⟩⟩
        rw [hseparate, if_neg Bool.false_ne_true, nestedBehind_eq_filter hsorted]
        exact List.mem_filter.2 ⟨hbehindParent, hbelow⟩
      · right
        refine ⟨parent, labels, child, hlater, hlabel, hseparate, ?_, hbelow, rfl⟩
        rcases List.mem_cons.1 hchild with rfl | hchild
        · -- The first directory comes before its would-be parent.
          exact absurd (lt_of_liesBelow hbelow) (String.lt_asymm (hfirst (parent, labels) hlater))
        · exact hchild

/-! ## Adding one source after another -/

theorem pairwise_le_mergeSort (labels : List String) :
    labels.mergeSort.Pairwise fun a b => a ≤ b := by
  have hsorted : labels.mergeSort.Pairwise fun a b => decide (a ≤ b) = true := by
    refine List.pairwise_mergeSort ?_ ?_ labels
    · simpa using fun a b c => String.le_trans
    · simpa using String.le_total
  exact hsorted.imp of_decide_eq_true

theorem nodup_of_pairwise_lt {labels : List String} (h : labels.Pairwise (· < ·)) :
    labels.Nodup := by
  refine h.imp fun hlt heq => ?_
  rw [heq] at hlt
  exact String.lt_irrefl _ hlt

/-- A list without repetitions is strictly in order when it is sorted. -/
theorem pairwise_lt_mergeSort {labels : List String} (h : labels.Nodup) :
    labels.mergeSort.Pairwise (· < ·) := by
  have hdistinct : labels.mergeSort.Nodup := (List.mergeSort_perm labels _).nodup_iff.2 h
  refine ((pairwise_le_mergeSort labels).and hdistinct).imp fun {a b} hab => ?_
  exact NameMap.lt_of_not_lt_of_ne (String.not_lt.2 hab.1) hab.2.symm

/-- Sorting forgets the order that labels had before. -/
theorem mergeSort_eq_of_perm {labels others : List String} (h : labels.Perm others) :
    labels.mergeSort = others.mergeSort := by
  refine List.Perm.eq_of_pairwise (fun a b _ _ => String.le_antisymm)
    (pairwise_le_mergeSort labels) (pairwise_le_mergeSort others) ?_
  exact (List.mergeSort_perm labels _).trans (h.trans (List.mergeSort_perm others _).symm)

/-- The labels of a list with new ones, sorted if there are any. -/
def extended (sources new : List String) : List String :=
  if new.isEmpty then sources else (sources ++ new).mergeSort

/-- Sorting an extended list only moves its entries. -/
theorem extended_perm (sources new : List String) :
    (extended sources new).Perm (sources ++ new) := by
  unfold extended
  split
  · next hempty => rw [List.isEmpty_iff.1 hempty, List.append_nil]
  · exact List.mergeSort_perm _ _

/-- An extended list holds the old entries and the new ones. -/
theorem mem_extended_iff {sources new : List String} {source : String} :
    source ∈ extended sources new ↔ source ∈ sources ∨ source ∈ new := by
  rw [(extended_perm sources new).mem_iff, List.mem_append]

/-- The order in which new entries are found does not show in the extended list. -/
theorem extended_congr (sources : List String) {new other : List String} (h : new.Perm other) :
    extended sources new = extended sources other := by
  have hempty : new.isEmpty = other.isEmpty := by
    rw [Bool.eq_iff_iff, List.isEmpty_iff, List.isEmpty_iff]
    constructor
    · rintro rfl
      exact h.nil_eq.symm
    · rintro rfl
      exact h.eq_nil
  rw [extended, extended, hempty, mergeSort_eq_of_perm (h.append_left sources)]

/-- One more source behind those that are new already. -/
theorem addSource_extended {sources new : List String} {source : String}
    (h : source ∉ sources ∧ source ∉ new) :
    addSource (extended sources new) source = extended sources (new ++ [source]) := by
  have hmem : (extended sources new).contains source = false := by
    simp [mem_extended_iff, h]
  have hperm : (extended sources new ++ [source]).Perm (sources ++ (new ++ [source])) := by
    rw [← List.append_assoc]
    exact (extended_perm sources new).append_right [source]
  rw [addSource, hmem, if_neg Bool.false_ne_true, mergeSort_eq_of_perm hperm, extended,
    if_neg (by simp)]

/-- Adding sources one after another extends a list by those of them that were not listed. -/
theorem foldl_addSource (sources gained : List String) : ∃ new, new.Nodup ∧
    (∀ source, source ∈ new ↔ source ∈ gained ∧ source ∉ sources) ∧
      gained.foldl addSource sources = extended sources new := by
  induction gained using List.reverseRecOn with
  | nil => exact ⟨[], List.nodup_nil, by simp, rfl⟩
  | append_singleton gained source ih =>
    obtain ⟨new, hnodup, hnew, heq⟩ := ih
    rw [List.foldl_concat, heq]
    by_cases hmem : source ∈ sources ∨ source ∈ new
    · refine ⟨new, hnodup, fun other => ?_, ?_⟩
      · have hsource : source ∉ sources → source ∈ gained := fun hout =>
          ((hnew source).1 (hmem.resolve_left hout)).1
        rw [hnew, List.mem_append, List.mem_singleton]
        constructor
        · exact fun ⟨hother, hout⟩ => ⟨Or.inl hother, hout⟩
        · rintro ⟨hother | rfl, hout⟩
          · exact ⟨hother, hout⟩
          · exact ⟨hsource hout, hout⟩
      · rw [addSource, if_pos (List.contains_iff_mem.2 (mem_extended_iff.2 hmem))]
    · obtain ⟨hsources, hout⟩ := not_or.1 hmem
      refine ⟨new ++ [source], ?_, fun other => ?_, addSource_extended ⟨hsources, hout⟩⟩
      · exact List.nodup_append.2 ⟨hnodup, List.pairwise_singleton _ source, by
          rintro a ha _ hb rfl
          exact hout (List.mem_singleton.1 hb ▸ ha)⟩
      · rw [List.mem_append, hnew, List.mem_append, List.mem_singleton]
        constructor
        · rintro (⟨hother, hfree⟩ | rfl)
          · exact ⟨Or.inl hother, hfree⟩
          · exact ⟨Or.inr rfl, hsources⟩
        · rintro ⟨hother | rfl, hfree⟩
          · exact Or.inl ⟨hother, hfree⟩
          · exact Or.inr rfl

/-! ## The sources that records gain -/

/-- The directories of all sources that records list. -/
def listedDirectories (records : Records) : NameSet :=
  NameSet.ofList (records.entries.flatMap fun e => e.2.localSources.map sourceDirectory)

/-- The labels of the given directories that lie below the directory of a source. -/
def nestedIn (directories : NameSet) (source : String) : List String :=
  let parent := sourceDirectory source
  if separateDirectories.contains parent then []
  else (directories.toList.filter fun d => liesBelow d parent).map (· ++ sourceEnding)

/-- A list of sources with those nested in them.  It is sorted if any are added. -/
def withNested (directories : NameSet) (sources : List String) : List String :=
  let nested := NameSet.ofList (sources.flatMap (nestedIn directories))
  extended sources (nested.toList.filter fun source => !sources.contains source)

/-- Adding nested sources keeps sources in order. -/
theorem pairwise_lt_withNested {sources : List String} (directories : NameSet)
    (h : sources.Pairwise (· < ·)) : (withNested directories sources).Pairwise (· < ·) := by
  unfold withNested extended
  dsimp only
  split
  · exact h
  · refine pairwise_lt_mergeSort (List.nodup_append.2 ⟨nodup_of_pairwise_lt h, ?_, ?_⟩)
    · exact (nodup_of_pairwise_lt (NameSet.sorted _)).filter _
    · -- What is added was not listed before.
      rintro source hlisted _ hadded rfl
      have hnew := (List.mem_filter.1 hadded).2
      simp [hlisted] at hnew

/-- What one source brings in: the sources of the listed directories below its own, unless that one
is kept separate. -/
theorem mem_nestedIn_iff {directories : NameSet} {source nested : String} :
    nested ∈ nestedIn directories source ↔
      separateDirectories.contains (sourceDirectory source) = false ∧
        ∃ child ∈ directories, liesBelow child (sourceDirectory source) = true ∧
          nested = child ++ sourceEnding := by
  unfold nestedIn
  dsimp only
  cases separateDirectories.contains (sourceDirectory source) with
  | true => simp
  | false =>
    simp only [Bool.false_eq_true, if_false, List.mem_map, List.mem_filter, true_and]
    constructor
    · rintro ⟨child, ⟨hchild, hbelow⟩, rfl⟩
      exact ⟨child, hchild, hbelow, rfl⟩
    · rintro ⟨child, hchild, hbelow, rfl⟩
      exact ⟨child, ⟨hchild, hbelow⟩, rfl⟩

/-- A record lists a directory when one of its sources is that of the directory. -/
theorem mem_listedSources_iff {records : Records} {directory label : String} :
    (directory, label) ∈ records.listedSources ↔ ∃ record, records.get? label = some record ∧
      ∃ source ∈ record.localSources, sourceDirectory source = directory := by
  simp only [listedSources, List.mem_flatMap, List.mem_map, NameMap.get?_eq_some_iff]
  constructor
  · rintro ⟨entry, hentry, source, hsource, heq⟩
    obtain ⟨rfl, rfl⟩ := Prod.mk.inj heq
    exact ⟨entry.2, hentry, source, hsource, rfl⟩
  · rintro ⟨record, hrecord, source, hsource, rfl⟩
    exact ⟨(label, record), hrecord, source, hsource, rfl⟩

/-- The owned directories are the listed ones. -/
theorem mem_names_sourceOwners_iff {records : Records} {directory : String} :
    directory ∈ records.sourceOwners.names ↔ directory ∈ listedDirectories records := by
  rw [sourceOwners, NameMap.mem_names_ofPairs_iff]
  simp only [listedSources, listedDirectories, NameSet.mem_ofList, List.mem_flatMap, List.mem_map]
  constructor
  · rintro ⟨label, entry, hentry, source, hsource, heq⟩
    exact ⟨entry, hentry, source, hsource, (Prod.mk.inj heq).1⟩
  · rintro ⟨entry, hentry, source, hsource, rfl⟩
    exact ⟨entry.1, entry, hentry, source, hsource, rfl⟩

/-- What a label gains are the directories nested in its own. -/
theorem mem_gained_iff {records : Records} {label source : String} {record : Record}
    (hrecord : records.get? label = some record) :
    source ∈ NameMap.valuesOf label (additions records.sourceOwners.entries) ↔
      source ∈ record.localSources.flatMap (nestedIn (listedDirectories records)) := by
  rw [NameMap.mem_valuesOf, mem_additions_iff records.sourceOwners.sorted]
  simp only [List.mem_flatMap, mem_nestedIn_iff, ← mem_names_sourceOwners_iff]
  constructor
  · rintro ⟨parent, labels, child, hentry, hlabel, hseparate, hchild, hbelow, rfl⟩
    obtain ⟨found, hfound, own, hown, rfl⟩ :=
      mem_listedSources_iff.1 (NameMap.mem_of_ofPairs_iff.1 ⟨labels, hentry, hlabel⟩)
    obtain rfl := Option.some.inj (hrecord.symm.trans hfound)
    exact ⟨own, hown, hseparate, child, hchild, hbelow, rfl⟩
  · rintro ⟨own, hown, hseparate, child, hchild, hbelow, rfl⟩
    obtain ⟨labels, hentry, hlabel⟩ := NameMap.mem_of_ofPairs_iff.2
      (mem_listedSources_iff.2 ⟨record, hrecord, own, hown, rfl⟩)
    exact ⟨sourceDirectory own, labels, child, hentry, hlabel, hseparate, hchild, hbelow, rfl⟩

/-- Adding a source to one record leaves every other record as it is. -/
theorem get?_addSourceTo (records : Records) (label source other : String) :
    (records.addSourceTo label source).get? other = (records.get? other).map fun record =>
      if other = label then { record with localSources := addSource record.localSources source }
      else record := by
  unfold addSourceTo
  split
  · next hnone =>
    cases hother : records.get? other with
    | none => rfl
    | some record =>
      have hne : other ≠ label := by
        rintro rfl
        rw [hnone] at hother
        cases hother
      simp [hne]
  · next found hfound =>
    rw [NameMap.get?_insert]
    by_cases heq : other = label
    · subst heq
      simp [hfound]
    · simp [heq]

/-- Additions change the record of a label by those that are its own. -/
theorem get?_foldl_addSourceTo (gains : List (String × String)) (records : Records)
    (label : String) :
    (gains.foldl (fun acc gain => acc.addSourceTo gain.1 gain.2) records).get? label =
      (records.get? label).map fun record =>
        { record with
          localSources := (NameMap.valuesOf label gains).foldl addSource record.localSources } := by
  induction gains generalizing records with
  | nil => simp [NameMap.valuesOf]
  | cons gain rest ih =>
    rw [List.foldl_cons, ih, get?_addSourceTo, Option.map_map]
    congr 1
    funext record
    by_cases heq : label = gain.1
    · simp [NameMap.valuesOf, heq]
    · simp [NameMap.valuesOf, heq, Ne.symm heq]

/-- The pass touches the list of local sources and nothing else, of each record by itself. -/
theorem get?_addNestedSources (records : Records) (label : String) :
    (addNestedSources records).get? label = (records.get? label).map fun record =>
      { record with
        localSources := withNested (listedDirectories records) record.localSources } := by
  rw [addNestedSources, get?_foldl_addSourceTo]
  refine Option.map_congr fun record hrecord => ?_
  obtain ⟨new, hnodup, hnew, heq⟩ := foldl_addSource record.localSources
    (NameMap.valuesOf label (additions records.sourceOwners.entries))
  have hperm : new.Perm ((NameSet.ofList (record.localSources.flatMap
      (nestedIn (listedDirectories records)))).toList.filter
        fun source => !record.localSources.contains source) := by
    refine (List.perm_ext_iff_of_nodup hnodup
      ((nodup_of_pairwise_lt (NameSet.sorted _)).filter _)).2 fun source => ?_
    rw [hnew, mem_gained_iff hrecord, List.mem_filter, ← NameSet.mem_iff_mem_toList,
      NameSet.mem_ofList]
    simp
  rw [heq, extended_congr _ hperm]
  rfl

end Records
end EbuildGraph
