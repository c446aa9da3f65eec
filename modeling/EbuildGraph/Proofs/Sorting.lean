import Mathlib.Data.List.Sort

/-!
# Stable sorting

Sorting by merging is stable, so it agrees with sorting by insertion, one member after the
other, even where two members can each come before the other.  Insertion has the shape of the
list, which makes it the form to reason about: members that are put into a list before it is
sorted are found among the sorted members, and the others keep their order.

Main definition:

- {lit}`Extends`: a list with further members put between its own.

Main results:

- Theorem {lit}`mergeSort_eq_insertionSort`: the two ways of sorting agree.
- Theorem {lit}`filter_mergeSort`: sorting keeps the order of members that can each come
  before the other.
- Theorem {lit}`Extends.mergeSort`: what is put into a list is put into the sorted list.
-/

namespace EbuildGraph

variable {α β : Type} {le : α → α → Bool}

/-! ## Sorting by insertion -/

/-- A member is put where those before it come first and those behind it do not. -/
theorem orderedInsert_append {x : α} {before after : List α}
    (hbefore : ∀ y ∈ before, le x y = false) (hafter : ∀ y ∈ after, le x y = true) :
    (before ++ after).orderedInsert (le · ·) x = before ++ x :: after := by
  induction before with
  | nil =>
    cases after with
    | nil => rfl
    | cons y after => simp [hafter y List.mem_cons_self]
  | cons y before ih =>
    obtain ⟨hy, hrest⟩ := List.forall_mem_cons.1 hbefore
    simp [hy, ih hrest]

section Sorting

variable (trans : ∀ a b c : α, le a b = true → le b c = true → le a c = true)
  (total : ∀ a b : α, (le a b || le b a) = true)
include trans total

/-- Sorting a list is sorting its tail and inserting the head. -/
theorem mergeSort_cons (x : α) (xs : List α) :
    (x :: xs).mergeSort le = (xs.mergeSort le).orderedInsert (le · ·) x := by
  obtain ⟨before, after, hcons, htail, hbefore⟩ := List.mergeSort_cons trans total x xs
  have hsorted := List.pairwise_mergeSort trans total (x :: xs)
  rw [hcons] at hsorted
  have hafter := (List.pairwise_cons.1 (List.pairwise_append.1 hsorted).2.1).1
  rw [hcons, htail, orderedInsert_append (by simpa using hbefore) hafter]

/-- Sorting by merging and sorting by insertion agree, also on members that can each come
before the other. -/
theorem mergeSort_eq_insertionSort (xs : List α) :
    xs.mergeSort le = xs.insertionSort (le · ·) := by
  induction xs with
  | nil => simp
  | cons x xs ih => rw [mergeSort_cons trans total, ih, List.insertionSort_cons]

/-- Sorting keeps the order of members each of which can come before the others. -/
theorem filter_mergeSort {test : α → Bool}
    (htest : ∀ a b, test a = true → test b = true → le a b = true) (xs : List α) :
    (xs.mergeSort le).filter test = xs.filter test := by
  have hpairwise : (xs.filter test).Pairwise fun a b => le a b = true := by
    refine List.pairwise_of_forall_sublist fun {a b} hab => ?_
    have ha : a ∈ xs.filter test := hab.subset List.mem_cons_self
    have hb : b ∈ xs.filter test := hab.subset (List.mem_cons_of_mem a List.mem_cons_self)
    exact htest a b (List.mem_filter.1 ha).2 (List.mem_filter.1 hb).2
  have hsublist : (xs.filter test).Sublist (xs.mergeSort le) :=
    List.sublist_mergeSort trans total hpairwise List.filter_sublist
  have hfilter := hsublist.filter test
  rw [List.filter_filter] at hfilter
  simp only [Bool.and_self] at hfilter
  have hlength : (xs.filter test).length = ((xs.mergeSort le).filter test).length :=
    ((List.mergeSort_perm xs le).filter test).length_eq.symm
  exact (hfilter.eq_of_length hlength).symm

end Sorting

/-! ## Members put into a list -/

/-- The second list is the first with further members put between its own. -/
inductive Extends (new : α → Prop) : List α → List α → Prop
  | nil : Extends new [] []
  | keep (x : α) {xs ys : List α} (rest : Extends new xs ys) : Extends new (x :: xs) (x :: ys)
  | add {y : α} (h : new y) {xs ys : List α} (rest : Extends new xs ys) :
    Extends new xs (y :: ys)

namespace Extends

variable {new : α → Prop} {xs ys zs ws : List α}

theorem refl (xs : List α) : Extends new xs xs := by
  induction xs with
  | nil => exact .nil
  | cons x xs ih => exact .keep x ih

theorem concat (xs : List α) {y : α} (h : new y) : Extends new xs (xs ++ [y]) := by
  induction xs with
  | nil => exact .add h .nil
  | cons x xs ih => exact .keep x ih

/-- Nothing is lost in an extended list. -/
theorem subset (h : Extends new xs ys) : xs ⊆ ys := by
  induction h with
  | nil => exact List.Subset.refl []
  | keep x _ ih => exact List.cons_subset_cons x ih
  | @add y _ _ _ _ ih => exact List.subset_cons_of_subset y ih

/-- What is new may be told by any weaker property. -/
theorem imp {new' : α → Prop} (h : Extends new xs ys) (himp : ∀ x, new x → new' x) :
    Extends new' xs ys := by
  induction h with
  | nil => exact .nil
  | keep x _ ih => exact .keep x ih
  | add hnew _ ih => exact .add (himp _ hnew) ih

/-- Extensions of two lists extend the two lists put together. -/
theorem append (h : Extends new xs ys) (h' : Extends new zs ws) :
    Extends new (xs ++ zs) (ys ++ ws) := by
  induction h with
  | nil => exact h'
  | keep x _ ih => exact .keep x ih
  | add hnew _ ih => exact .add hnew ih

/-- Extensions of the parts extend the whole. -/
theorem flatten {xss yss : List (List α)} (h : List.Forall₂ (Extends new) xss yss) :
    Extends new xss.flatten yss.flatten := by
  induction h with
  | nil => exact .nil
  | cons hfirst _ ih => exact hfirst.append ih

/-- A test that keeps members keeps extensions. -/
theorem filter (h : Extends new xs ys) (test : α → Bool) :
    Extends new (xs.filter test) (ys.filter test) := by
  induction h with
  | nil => exact .nil
  | @keep x _ _ _ ih =>
    by_cases hx : test x = true
    · simpa [hx] using ih.keep x
    · simpa [hx] using ih
  | @add y hnew _ _ _ ih =>
    by_cases hy : test y = true
    · simpa [hy] using ih.add hnew
    · simpa [hy] using ih

/-- What the members of a list give, when those put into it are new and the others give the
same as before. -/
theorem filterMap {f g : α → Option β} {new' : β → Prop} (h : Extends new xs ys)
    (hkept : ∀ x ∈ xs, g x = f x) (hnew : ∀ y z, new y → g y = some z → new' z) :
    Extends new' (xs.filterMap f) (ys.filterMap g) := by
  induction h with
  | nil => exact .nil
  | @keep x _ _ _ ih =>
    obtain ⟨hx, hrest⟩ := List.forall_mem_cons.1 hkept
    rw [List.filterMap_cons, List.filterMap_cons, hx]
    cases f x with
    | none => exact ih hrest
    | some z => exact .keep z (ih hrest)
  | @add y hy _ _ _ ih =>
    rw [List.filterMap_cons]
    cases hz : g y with
    | none => exact ih hkept
    | some z => exact .add (hnew y z hy hz) (ih hkept)

/-! ### Sorted lists -/

/-- Inserting a new member extends the list, wherever it goes. -/
theorem orderedInsert_new (h : Extends new xs ys) {z : α} (hz : new z) :
    Extends new xs (ys.orderedInsert (le · ·) z) := by
  induction h with
  | nil => exact .add hz .nil
  | @keep x _ _ hrest ih =>
    rw [List.orderedInsert_cons]
    split
    · exact .add hz (.keep x hrest)
    · exact .keep x ih
  | add hnew hrest ih =>
    rw [List.orderedInsert_cons]
    split
    · exact .add hz (.add hnew hrest)
    · exact .add hnew ih

/-- A member inserted into both lists comes, in the longer one, behind no further members than
those that come before it. -/
theorem orderedInsert (trans : ∀ a b c : α, le a b = true → le b c = true → le a c = true)
    (h : Extends new xs ys) (hsorted : ys.Pairwise fun a b => le a b = true) (z : α) :
    Extends new (xs.orderedInsert (le · ·) z) (ys.orderedInsert (le · ·) z) := by
  induction h with
  | nil => exact .refl [z]
  | @keep x _ _ hrest ih =>
    rw [List.orderedInsert_cons, List.orderedInsert_cons]
    split
    · exact .keep z (.keep x hrest)
    · exact .keep x (ih hsorted.of_cons)
  | @add y hnew xs ys hrest ih =>
    rw [List.orderedInsert_cons]
    split
    · next hzy =>
      -- What comes before the first of the longer list comes before all of both.
      have hall : ∀ w ∈ xs, le z w = true := fun w hw =>
        trans z y w hzy ((List.pairwise_cons.1 hsorted).1 w (hrest.subset hw))
      rw [← List.nil_append xs, orderedInsert_append (by simp) hall]
      exact .keep z (.add hnew hrest)
    · exact .add hnew (ih hsorted.of_cons)

/-- Members that are put into a list are put into the sorted list, and the others keep their
order. -/
theorem mergeSort (trans : ∀ a b c : α, le a b = true → le b c = true → le a c = true)
    (total : ∀ a b : α, (le a b || le b a) = true) (h : Extends new xs ys) :
    Extends new (xs.mergeSort le) (ys.mergeSort le) := by
  induction h with
  | nil => exact .refl _
  | @keep x xs ys _ ih =>
    rw [mergeSort_cons trans total, mergeSort_cons trans total]
    exact ih.orderedInsert trans (List.pairwise_mergeSort trans total ys) x
  | @add y hnew xs ys _ ih =>
    rw [mergeSort_cons trans total]
    exact ih.orderedInsert_new hnew

end Extends
end EbuildGraph
