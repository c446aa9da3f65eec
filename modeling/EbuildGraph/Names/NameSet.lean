import EbuildGraph.Names.NameMap

/-!
# Sets of names

A {lit}`NameSet` lists its members in strictly increasing order of code points,
so a set has one representation.

Main results:

- Theorem {lit}`mem_insert`, {lit}`mem_erase`, {lit}`mem_ofList`: membership after each operation.
- Theorem {lit}`NameSet.ext_mem`: sets with the same members are equal.
-/

namespace EbuildGraph

/-- Names in strictly increasing order. -/
structure NameSet where
  toList : List String
  sorted : toList.Pairwise (· < ·)
deriving DecidableEq

namespace NameSet

/-- Inserts a name at its place unless it is there. -/
def insertName (name : String) : List String → List String
  | [] => [name]
  | first :: rest =>
    if name < first then name :: first :: rest
    else if name = first then first :: rest
    else first :: insertName name rest

theorem mem_insertName {name other : String} {names : List String} :
    other ∈ insertName name names ↔ other = name ∨ other ∈ names := by
  induction names with
  | nil => simp [insertName]
  | cons first rest ih =>
    unfold insertName
    split
    · simp
    · split
      · next heq => simp [heq]
      · simp only [List.mem_cons, ih]
        constructor
        · rintro (h | h | h)
          · exact .inr (.inl h)
          · exact .inl h
          · exact .inr (.inr h)
        · rintro (h | h | h)
          · exact .inr (.inl h)
          · exact .inl h
          · exact .inr (.inr h)

theorem pairwise_insertName (name : String) {names : List String}
    (h : names.Pairwise (· < ·)) : (insertName name names).Pairwise (· < ·) := by
  induction names with
  | nil => simp [insertName]
  | cons first rest ih =>
    obtain ⟨hhead, htail⟩ := List.pairwise_cons.1 h
    unfold insertName
    split
    · next hlt =>
      refine List.pairwise_cons.2 ⟨fun other hother => ?_, h⟩
      rcases List.mem_cons.1 hother with heq | hmem
      · exact heq ▸ hlt
      · exact String.lt_trans hlt (hhead other hmem)
    · next hlt =>
      split
      · exact h
      · next hne =>
        refine List.pairwise_cons.2 ⟨fun other hother => ?_, ih htail⟩
        rcases mem_insertName.1 hother with heq | hmem
        · exact heq ▸ NameMap.lt_of_not_lt_of_ne hlt hne
        · exact hhead other hmem

/-- The set without members. -/
def empty : NameSet := ⟨[], .nil⟩

instance : EmptyCollection NameSet := ⟨empty⟩

instance : Inhabited NameSet := ⟨empty⟩

/-- The set with one more member. -/
def insert (s : NameSet) (name : String) : NameSet :=
  ⟨insertName name s.toList, pairwise_insertName name s.sorted⟩

/-- The set without that member. -/
def erase (s : NameSet) (name : String) : NameSet :=
  ⟨s.toList.filter (· != name), s.sorted.filter _⟩

/-- Whether the name is a member. -/
def contains (s : NameSet) (name : String) : Bool :=
  s.toList.contains name

/-- The number of members. -/
def size (s : NameSet) : Nat :=
  s.toList.length

/-- Whether the set has no members. -/
def isEmpty (s : NameSet) : Bool :=
  s.toList.isEmpty

/-- Adds every name of the list. -/
def insertAll (s : NameSet) (names : List String) : NameSet :=
  names.foldl insert s

/-- The set of the names in a list. -/
def ofList (names : List String) : NameSet :=
  empty.insertAll names

instance : Membership String NameSet where
  mem s name := name ∈ s.toList

theorem mem_iff_mem_toList {s : NameSet} {name : String} : name ∈ s ↔ name ∈ s.toList :=
  Iff.rfl

@[simp]
theorem contains_iff_mem {s : NameSet} {name : String} : s.contains name = true ↔ name ∈ s := by
  simp [contains, mem_iff_mem_toList]

@[simp]
theorem not_mem_empty (name : String) : ¬name ∈ empty := by
  simp [mem_iff_mem_toList, empty]

@[simp]
theorem mem_insert {s : NameSet} {name other : String} :
    other ∈ s.insert name ↔ other = name ∨ other ∈ s :=
  mem_insertName

@[simp]
theorem mem_erase {s : NameSet} {name other : String} :
    other ∈ s.erase name ↔ other ∈ s ∧ other ≠ name := by
  simp [mem_iff_mem_toList, erase]

theorem mem_insertAll {s : NameSet} {names : List String} {name : String} :
    name ∈ s.insertAll names ↔ name ∈ s ∨ name ∈ names := by
  induction names generalizing s with
  | nil => simp [insertAll]
  | cons first rest ih =>
    have : s.insertAll (first :: rest) = (s.insert first).insertAll rest := rfl
    rw [this, ih, mem_insert, List.mem_cons]
    constructor
    · rintro ((h | h) | h)
      · exact .inr (.inl h)
      · exact .inl h
      · exact .inr (.inr h)
    · rintro (h | h | h)
      · exact .inl (.inr h)
      · exact .inl (.inl h)
      · exact .inr h

@[simp]
theorem mem_ofList {names : List String} {name : String} : name ∈ ofList names ↔ name ∈ names := by
  simp [ofList, mem_insertAll]

theorem eq_of_mem_iff {xs ys : List String} (hxs : xs.Pairwise (· < ·))
    (hys : ys.Pairwise (· < ·)) (h : ∀ name, name ∈ xs ↔ name ∈ ys) : xs = ys := by
  induction xs generalizing ys with
  | nil =>
    cases ys with
    | nil => rfl
    | cons y ys => simpa using h y
  | cons x xs ih =>
    cases ys with
    | nil => simpa using h x
    | cons y ys =>
      obtain ⟨hx, hxtail⟩ := List.pairwise_cons.1 hxs
      obtain ⟨hy, hytail⟩ := List.pairwise_cons.1 hys
      have hhead : x = y := by
        have hxy := (h x).1 List.mem_cons_self
        have hyx := (h y).2 List.mem_cons_self
        rcases List.mem_cons.1 hxy with heq | hmem
        · exact heq
        · rcases List.mem_cons.1 hyx with heq | hmem'
          · exact heq.symm
          · exact absurd (hy x hmem) (String.lt_asymm (hx y hmem'))
      subst hhead
      have hrest : xs = ys := by
        refine ih hxtail hytail fun name => ?_
        have hname := h name
        simp only [List.mem_cons] at hname
        constructor
        · intro hmem
          rcases hname.1 (.inr hmem) with heq | hmem'
          · exact absurd (heq ▸ hx name hmem) (String.lt_irrefl _)
          · exact hmem'
        · intro hmem
          rcases hname.2 (.inr hmem) with heq | hmem'
          · exact absurd (heq ▸ hy name hmem) (String.lt_irrefl _)
          · exact hmem'
      rw [hrest]

/-- Sets with the same members are equal. -/
theorem ext_mem {s t : NameSet} (h : ∀ name, name ∈ s ↔ name ∈ t) : s = t := by
  obtain ⟨xs, hxs⟩ := s
  obtain ⟨ys, hys⟩ := t
  have : xs = ys := eq_of_mem_iff hxs hys h
  subst this
  rfl

end NameSet
end EbuildGraph
