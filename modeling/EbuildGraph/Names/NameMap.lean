/-!
# Tables keyed by names

A {lit}`NameMap` lists its entries by strictly increasing name, in the order of
code points, so a table has one representation and equal contents are equal
tables.

Main results:

- Theorem {lit}`get?_insert`: a written entry is read back and no other changes.
- Theorem {lit}`NameMap.ext_get?`: tables that answer every look-up alike are equal.
- Theorem {lit}`get?_eq_some_iff`: what is read of a name is its entry.
- Theorem {lit}`get?_overlay`: what is read of a table on top of another.
- Theorem {lit}`insertAll_eq_overlay`: entries written one after another are their table on top.
- Theorem {lit}`get?_ofPairs`: a table of lists keeps the values of each name in order.
-/

namespace EbuildGraph

/-- Entries in strictly increasing order of their names. -/
structure NameMap (α : Type) where
  entries : List (String × α)
  sorted : entries.Pairwise fun a b => a.1 < b.1
deriving DecidableEq

namespace NameMap

variable {α : Type}

/-- Inserts an entry at its place, replacing one of the same name. -/
def insertEntry (name : String) (value : α) : List (String × α) → List (String × α)
  | [] => [(name, value)]
  | entry :: rest =>
    if name < entry.1 then (name, value) :: entry :: rest
    else if name = entry.1 then (name, value) :: rest
    else entry :: insertEntry name value rest

theorem mem_insertEntry {name : String} {value : α} {e : String × α} {es : List (String × α)}
    (h : e ∈ insertEntry name value es) : e = (name, value) ∨ e ∈ es := by
  induction es with
  | nil => simpa [insertEntry] using h
  | cons entry rest ih =>
    unfold insertEntry at h
    split at h
    · simpa using h
    · split at h
      · rcases List.mem_cons.1 h with h | h
        · exact .inl h
        · exact .inr (List.mem_cons_of_mem _ h)
      · rcases List.mem_cons.1 h with h | h
        · exact .inr (h ▸ List.mem_cons_self)
        · exact (ih h).imp id (List.mem_cons_of_mem _)

/-- Names that are neither before nor equal are after. -/
theorem lt_of_not_lt_of_ne {a b : String} (h : ¬a < b) (hne : a ≠ b) : b < a := by
  by_cases hba : b < a
  · exact hba
  · exact absurd (String.le_antisymm (String.not_lt.1 hba) (String.not_lt.1 h)) hne

theorem pairwise_insertEntry (name : String) (value : α) {es : List (String × α)}
    (h : es.Pairwise fun a b => a.1 < b.1) :
    (insertEntry name value es).Pairwise fun a b => a.1 < b.1 := by
  induction es with
  | nil => simp [insertEntry]
  | cons entry rest ih =>
    obtain ⟨hhead, htail⟩ := List.pairwise_cons.1 h
    unfold insertEntry
    split
    · next hlt =>
      refine List.pairwise_cons.2 ⟨fun e he => ?_, h⟩
      rcases List.mem_cons.1 he with he | he
      · exact he ▸ hlt
      · exact String.lt_trans hlt (hhead e he)
    · next hlt =>
      split
      · next heq => exact List.pairwise_cons.2 ⟨fun e he => heq ▸ hhead e he, htail⟩
      · next hne =>
        refine List.pairwise_cons.2 ⟨fun e he => ?_, ih htail⟩
        rcases mem_insertEntry he with he | he
        · exact he ▸ lt_of_not_lt_of_ne hlt hne
        · exact hhead e he

/-- The table without entries. -/
def empty : NameMap α := ⟨[], .nil⟩

instance : EmptyCollection (NameMap α) := ⟨empty⟩

instance : Inhabited (NameMap α) := ⟨empty⟩

/-- The table with one entry written. -/
def insert (m : NameMap α) (name : String) (value : α) : NameMap α :=
  ⟨insertEntry name value m.entries, pairwise_insertEntry name value m.sorted⟩

/-- The table without the entry of that name. -/
def erase (m : NameMap α) (name : String) : NameMap α :=
  ⟨m.entries.filter (fun e => e.1 != name), m.sorted.filter _⟩

/-- The entry of that name. -/
def get? (m : NameMap α) (name : String) : Option α :=
  m.entries.lookup name

/-- Whether the table has an entry of that name. -/
def contains (m : NameMap α) (name : String) : Bool :=
  (m.get? name).isSome

/-- The names of the entries, in order. -/
def names (m : NameMap α) : List String :=
  m.entries.map Prod.fst

/-- The number of entries. -/
def size (m : NameMap α) : Nat :=
  m.entries.length

/-- Whether the table has no entries. -/
def isEmpty (m : NameMap α) : Bool :=
  m.entries.isEmpty

/-- Writes the given entries in order; of one name the last stays. -/
def insertAll (m : NameMap α) (entries : List (String × α)) : NameMap α :=
  entries.foldl (fun acc e => acc.insert e.1 e.2) m

/-- The table of the given entries; of one name the last stays. -/
def ofList (entries : List (String × α)) : NameMap α :=
  empty.insertAll entries

/-- Writes a value behind the other values of its name. -/
def push (m : NameMap (List α)) (name : String) (value : α) : NameMap (List α) :=
  m.insert name ((m.get? name).getD [] ++ [value])

/-- Writes values behind the other values of their names, in order. -/
def pushAll (m : NameMap (List α)) (pairs : List (String × α)) : NameMap (List α) :=
  pairs.foldl (fun acc pair => acc.push pair.1 pair.2) m

/-- The table that lists the values of each name. -/
def ofPairs (pairs : List (String × α)) : NameMap (List α) :=
  empty.pushAll pairs

/-- The first table overlaid with the second. -/
def overlay (m n : NameMap α) : NameMap α :=
  m.insertAll n.entries

/-- The table of the same names with every entry changed. -/
def mapEntries {β : Type} (f : String → α → β) (m : NameMap α) : NameMap β :=
  ⟨m.entries.map fun e => (e.1, f e.1 e.2), m.sorted.map _ fun _ _ h => h⟩

/-- The entries whose names pass the test. -/
def filterNames (p : String → Bool) (m : NameMap α) : NameMap α :=
  ⟨m.entries.filter fun e => p e.1, m.sorted.filter _⟩

/-! ## Reading after writing -/

theorem lookup_cons_eq (name : String) (e : String × α) (es : List (String × α)) :
    (e :: es).lookup name = if name = e.1 then some e.2 else es.lookup name := by
  obtain ⟨key, value⟩ := e
  by_cases h : name = key
  · subst h
    simp
  · have : (name == key) = false := by simpa using h
    simp [List.lookup_cons, h, this]

theorem lookup_insertEntry (name other : String) (value : α) (es : List (String × α)) :
    (insertEntry name value es).lookup other =
      if other = name then some value else es.lookup other := by
  induction es with
  | nil => simp [insertEntry, lookup_cons_eq]
  | cons entry rest ih =>
    unfold insertEntry
    split
    · rw [lookup_cons_eq]
    · split
      · next heq =>
        by_cases h : other = name <;> simp [lookup_cons_eq, h, ← heq]
      · next hne =>
        rw [lookup_cons_eq, lookup_cons_eq, ih]
        by_cases hentry : other = entry.1
        · simp [hentry, Ne.symm hne]
        · simp [hentry]

@[simp]
theorem get?_empty (name : String) : (empty : NameMap α).get? name = none :=
  rfl

/-- A written entry is read back and no other entry changes. -/
theorem get?_insert (m : NameMap α) (name other : String) (value : α) :
    (m.insert name value).get? other = if other = name then some value else m.get? other :=
  lookup_insertEntry name other value m.entries

theorem lookup_eq_none_of_forall_lt {name : String} {es : List (String × α)}
    (h : ∀ e ∈ es, name < e.1) : es.lookup name = none := by
  induction es with
  | nil => rfl
  | cons entry rest ih =>
    have hne : name ≠ entry.1 := fun heq =>
      String.lt_irrefl _ (heq ▸ h entry List.mem_cons_self : entry.1 < entry.1)
    rw [lookup_cons_eq, if_neg hne, ih fun e he => h e (List.mem_cons_of_mem _ he)]

theorem eq_of_lookup_eq {es fs : List (String × α)}
    (hes : es.Pairwise fun a b => a.1 < b.1) (hfs : fs.Pairwise fun a b => a.1 < b.1)
    (h : ∀ name, es.lookup name = fs.lookup name) : es = fs := by
  induction es generalizing fs with
  | nil =>
    cases fs with
    | nil => rfl
    | cons f fs =>
      have := h f.1
      simp [lookup_cons_eq] at this
  | cons e es ih =>
    cases fs with
    | nil =>
      have := h e.1
      simp [lookup_cons_eq] at this
    | cons f fs =>
      obtain ⟨he, hes⟩ := List.pairwise_cons.1 hes
      obtain ⟨hf, hfs⟩ := List.pairwise_cons.1 hfs
      have hname : e.1 = f.1 := by
        by_cases hlt : e.1 < f.1
        · have := h e.1
          rw [lookup_cons_eq, @lookup_eq_none_of_forall_lt _ _ (f :: fs)] at this
          · simp at this
          · intro g hg
            rcases List.mem_cons.1 hg with hg | hg
            · exact hg ▸ hlt
            · exact String.lt_trans hlt (hf g hg)
        · by_cases heq : e.1 = f.1
          · exact heq
          · have hgt := lt_of_not_lt_of_ne hlt heq
            have := h f.1
            rw [@lookup_eq_none_of_forall_lt _ _ (e :: es), lookup_cons_eq] at this
            · simp at this
            · intro g hg
              rcases List.mem_cons.1 hg with hg | hg
              · exact hg ▸ hgt
              · exact String.lt_trans hgt (he g hg)
      have hvalue : e.2 = f.2 := by
        have := h e.1
        simpa [lookup_cons_eq, hname] using this
      have hrest : es = fs := by
        refine ih hes hfs fun name => ?_
        by_cases hn : name = e.1
        · rw [@lookup_eq_none_of_forall_lt _ _ es (hn ▸ he),
            @lookup_eq_none_of_forall_lt _ _ fs (hn ▸ hname ▸ hf)]
        · have := h name
          rw [lookup_cons_eq, lookup_cons_eq, if_neg hn, if_neg (hname ▸ hn)] at this
          exact this
      rw [Prod.ext hname hvalue, hrest]

/-- Tables that answer every look-up alike are equal. -/
theorem ext_get? {m n : NameMap α} (h : ∀ name, m.get? name = n.get? name) : m = n := by
  obtain ⟨es, hes⟩ := m
  obtain ⟨fs, hfs⟩ := n
  have : es = fs := eq_of_lookup_eq hes hfs h
  subst this
  rfl

/-! ## Entries and their names -/

theorem mem_of_lookup_eq_some {name : String} {value : α} {es : List (String × α)}
    (h : es.lookup name = some value) : (name, value) ∈ es := by
  obtain ⟨before, after, heq, _⟩ := List.lookup_eq_some_iff.1 h
  rw [heq]
  exact List.mem_append_right _ List.mem_cons_self

theorem lookup_eq_some_of_mem {name : String} {value : α} {es : List (String × α)}
    (hes : es.Pairwise fun a b => a.1 ≠ b.1) (h : (name, value) ∈ es) :
    es.lookup name = some value := by
  induction es with
  | nil => exact absurd h List.not_mem_nil
  | cons entry rest ih =>
    obtain ⟨hhead, htail⟩ := List.pairwise_cons.1 hes
    rw [lookup_cons_eq]
    rcases List.mem_cons.1 h with rfl | hrest
    · simp
    · rw [if_neg (Ne.symm (hhead _ hrest)), ih htail hrest]

theorem ne_of_pairwise_lt {es : List (String × α)} (h : es.Pairwise fun a b => a.1 < b.1) :
    es.Pairwise fun a b => a.1 ≠ b.1 := by
  refine h.imp ?_
  intro a b hlt heq
  rw [heq] at hlt
  exact String.lt_irrefl _ hlt

/-- What is read of a name is its entry. -/
theorem get?_eq_some_iff {m : NameMap α} {name : String} {value : α} :
    m.get? name = some value ↔ (name, value) ∈ m.entries :=
  ⟨mem_of_lookup_eq_some, lookup_eq_some_of_mem (ne_of_pairwise_lt m.sorted)⟩

theorem mem_names_iff {m : NameMap α} {name : String} :
    name ∈ m.names ↔ ∃ value, m.get? name = some value := by
  simp [names, get?_eq_some_iff]

theorem mem_names_of_get? {m : NameMap α} {name : String} {value : α}
    (h : m.get? name = some value) : name ∈ m.names :=
  mem_names_iff.2 ⟨value, h⟩

theorem lookup_mapEntries {β : Type} (f : String → α → β) (name : String)
    (es : List (String × α)) :
    (es.map fun e => (e.1, f e.1 e.2)).lookup name = (es.lookup name).map (f name) := by
  induction es with
  | nil => rfl
  | cons entry rest ih =>
    rw [List.map_cons, lookup_cons_eq, lookup_cons_eq, ih]
    by_cases h : name = entry.1
    · simp [h]
    · simp [h]

/-- Changing every entry changes what is read of each name. -/
@[simp]
theorem get?_mapEntries {β : Type} (f : String → α → β) (m : NameMap α) (name : String) :
    (m.mapEntries f).get? name = (m.get? name).map (f name) :=
  lookup_mapEntries f name m.entries

theorem get?_insertAll {es : List (String × α)} (hes : es.Pairwise fun a b => a.1 ≠ b.1)
    (m : NameMap α) (name : String) :
    (m.insertAll es).get? name = (es.lookup name).or (m.get? name) := by
  induction es generalizing m with
  | nil => rfl
  | cons entry rest ih =>
    obtain ⟨hhead, htail⟩ := List.pairwise_cons.1 hes
    have hstep : m.insertAll (entry :: rest) = (m.insert entry.1 entry.2).insertAll rest := rfl
    rw [hstep, ih htail, get?_insert, lookup_cons_eq]
    by_cases hname : name = entry.1
    · have hrest : rest.lookup name = none := by
        refine List.lookup_eq_none_iff.2 fun e he => ?_
        simpa [hname] using hhead e he
      rw [hrest, if_pos hname, if_pos hname]
      rfl
    · rw [if_neg hname, if_neg hname]

/-- A table of entries with different names holds these entries. -/
theorem get?_ofList_eq_some_iff {es : List (String × α)}
    (hes : es.Pairwise fun a b => a.1 ≠ b.1) {name : String} {value : α} :
    (ofList es).get? name = some value ↔ (name, value) ∈ es := by
  rw [ofList, get?_insertAll hes, get?_empty, Option.or_none]
  exact ⟨mem_of_lookup_eq_some, lookup_eq_some_of_mem hes⟩

/-! ## Tables on top of tables -/

/-- The second table counts where it has an entry. -/
theorem get?_overlay (m n : NameMap α) (name : String) :
    (m.overlay n).get? name = (n.get? name).or (m.get? name) :=
  get?_insertAll (ne_of_pairwise_lt n.sorted) m name

/-- An entry written on top is written below. -/
theorem overlay_insert (m n : NameMap α) (name : String) (value : α) :
    m.overlay (n.insert name value) = (m.overlay n).insert name value := by
  refine ext_get? fun other => ?_
  rw [get?_overlay, get?_insert, get?_insert, get?_overlay]
  split
  · rfl
  · rfl

/-- Entries written one after another, of which some may have one name, are the table that
they make up, on top. -/
theorem insertAll_eq_overlay (m : NameMap α) (es : List (String × α)) :
    m.insertAll es = m.overlay (ofList es) := by
  have hget : ∀ (es : List (String × α)) (m : NameMap α) (name : String),
      (m.insertAll es).get? name = ((ofList es).get? name).or (m.get? name) := by
    intro es
    induction es with
    | nil => exact fun _ _ => rfl
    | cons e es ih =>
      intro m name
      have hstep : ∀ m : NameMap α, m.insertAll (e :: es) = (m.insert e.1 e.2).insertAll es :=
        fun _ => rfl
      rw [ofList, hstep, hstep, ih, ih, get?_insert, get?_insert, get?_empty]
      cases (ofList es).get? name with
      | some value => rfl
      | none => split <;> rfl
  refine ext_get? fun name => ?_
  rw [hget, get?_overlay]

/-! ## Tables of lists -/

/-- The values of a name among pairs, in order. -/
def valuesOf (name : String) (pairs : List (String × α)) : List α :=
  (pairs.filter fun pair => pair.1 == name).map Prod.snd

theorem valuesOf_concat (name : String) (pairs : List (String × α)) (pair : String × α) :
    valuesOf name (pairs ++ [pair]) =
      valuesOf name pairs ++ if name = pair.1 then [pair.2] else [] := by
  by_cases h : name = pair.1
  · simp [valuesOf, h]
  · simp [valuesOf, h, Ne.symm h]

theorem mem_valuesOf {name : String} {pairs : List (String × α)} {value : α} :
    value ∈ valuesOf name pairs ↔ (name, value) ∈ pairs := by
  simp only [valuesOf, List.mem_map, List.mem_filter, beq_iff_eq]
  constructor
  · rintro ⟨⟨other, value⟩, ⟨hmem, rfl⟩, rfl⟩
    exact hmem
  · exact fun hmem => ⟨(name, value), ⟨hmem, rfl⟩, rfl⟩

theorem pushAll_concat (m : NameMap (List α)) (pairs : List (String × α)) (pair : String × α) :
    m.pushAll (pairs ++ [pair]) = (m.pushAll pairs).push pair.1 pair.2 := by
  simp [pushAll]

theorem get?_push (m : NameMap (List α)) (name other : String) (value : α) :
    (m.push name value).get? other =
      if other = name then some ((m.get? other).getD [] ++ [value]) else m.get? other := by
  rw [push, get?_insert]
  split
  · next heq => rw [heq]
  · rfl

/-- A table of lists keeps the values of each name in order and has no other names. -/
theorem get?_ofPairs (pairs : List (String × α)) (name : String) :
    (ofPairs pairs).get? name =
      if valuesOf name pairs = [] then none else some (valuesOf name pairs) := by
  -- The table grows at the end of each list, so the pairs are taken from their end.
  have hreverse : ∀ reversed : List (String × α),
      (ofPairs reversed.reverse).get? name = if valuesOf name reversed.reverse = [] then none
        else some (valuesOf name reversed.reverse) := by
    intro reversed
    induction reversed with
    | nil => rfl
    | cons pair front ih =>
      rw [List.reverse_cons, ofPairs, pushAll_concat, ← ofPairs, get?_push, ih, valuesOf_concat]
      have hvalues (values : List α) :
          (if values = [] then none else some values).getD [] = values := by
        split
        · next hnil => rw [hnil]; rfl
        · rfl
      by_cases h : name = pair.1
      · rw [hvalues]
        simp [h]
      · simp [h]
  simpa using hreverse pairs.reverse

theorem get?_ofPairs_eq_some_iff {pairs : List (String × α)} {name : String} {values : List α} :
    (ofPairs pairs).get? name = some values ↔ values ≠ [] ∧ values = valuesOf name pairs := by
  rw [get?_ofPairs]
  split
  · next hnil =>
    rw [hnil]
    exact ⟨nofun, fun ⟨hne, hvalues⟩ => absurd hvalues hne⟩
  · next hne =>
    rw [Option.some.injEq]
    exact ⟨fun h => ⟨h ▸ hne, h.symm⟩, fun ⟨_, h⟩ => h.symm⟩

/-- The names of a table of lists are those of the pairs. -/
theorem mem_names_ofPairs_iff {pairs : List (String × α)} {name : String} :
    name ∈ (ofPairs pairs).names ↔ ∃ value, (name, value) ∈ pairs := by
  simp only [mem_names_iff, get?_ofPairs_eq_some_iff, ← mem_valuesOf]
  constructor
  · rintro ⟨values, hne, rfl⟩
    exact List.exists_mem_of_ne_nil _ hne
  · rintro ⟨value, hvalue⟩
    exact ⟨_, List.ne_nil_of_mem hvalue, rfl⟩

/-- The lists of a table hold the pairs that it was made of. -/
theorem mem_of_ofPairs_iff {pairs : List (String × α)} {name : String} {value : α} :
    (∃ values, (name, values) ∈ (ofPairs pairs).entries ∧ value ∈ values) ↔
      (name, value) ∈ pairs := by
  rw [← mem_valuesOf]
  constructor
  · rintro ⟨values, hentry, hvalue⟩
    obtain ⟨-, rfl⟩ := get?_ofPairs_eq_some_iff.1 (get?_eq_some_iff.2 hentry)
    exact hvalue
  · intro hvalue
    have hget : (ofPairs pairs).get? name = some (valuesOf name pairs) :=
      get?_ofPairs_eq_some_iff.2 ⟨List.ne_nil_of_mem hvalue, rfl⟩
    exact ⟨_, get?_eq_some_iff.1 hget, hvalue⟩

end NameMap
end EbuildGraph
