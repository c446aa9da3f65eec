import EbuildGraph.Error
import Mathlib.Data.List.Forall2

/-!
# Successful steps

A computation that may fail is taken apart from its success: every step of it must have
succeeded, and each result is what the next step began with.

Main results:

- Theorems {lit}`bind_eq_ok_iff` and {lit}`map_eq_ok_iff`: a success in terms of its first step.
- Theorem {lit}`mapM_eq_ok_iff`: a success over a list, member by member.
- Theorem {lit}`mapM_eq_error_iff`: a failure over a list is that of the first member to fail.
-/

namespace EbuildGraph

variable {ε ε' α β : Type}

/-- Two steps succeed exactly when the first does and the second does on its result. -/
theorem bind_eq_ok_iff {x : Except ε α} {f : α → Except ε β} {b : β} :
    x >>= f = .ok b ↔ ∃ a, x = .ok a ∧ f a = .ok b := by
  cases x with
  | error err => simp [bind, Except.bind]
  | ok a => simp [bind, Except.bind]

/-- A result that is passed on is the image of one. -/
theorem map_eq_ok_iff {x : Except ε α} {f : α → β} {b : β} :
    x.map f = .ok b ↔ ∃ a, x = .ok a ∧ f a = b := by
  cases x with
  | error err => simp [Except.map]
  | ok a => simp [Except.map]

/-- Passing a result on cannot fail. -/
theorem exists_map_eq_ok_iff {x : Except ε α} {f : α → β} :
    (∃ b, x.map f = .ok b) ↔ ∃ a, x = .ok a := by
  cases x with
  | error err => simp [Except.map]
  | ok a => simp [Except.map]

/-- Two steps fail when the first does, or when it succeeds and the second fails on its result. -/
theorem bind_eq_error_iff {x : Except ε α} {f : α → Except ε β} {err : ε} :
    x >>= f = .error err ↔ x = .error err ∨ ∃ a, x = .ok a ∧ f a = .error err := by
  cases x with
  | error cause => simp [bind, Except.bind]
  | ok a => simp [bind, Except.bind]

/-- Passing a result on fails exactly as finding it does. -/
theorem map_eq_error_iff {x : Except ε α} {f : α → β} {err : ε} :
    x.map f = .error err ↔ x = .error err := by
  cases x with
  | error cause => simp [Except.map]
  | ok a => simp [Except.map]

/-- The test for success tells whether there is a result. -/
theorem isOk_iff_exists {x : Except ε α} : x.isOk = true ↔ ∃ a, x = .ok a := by
  cases x with
  | error err => simp [Except.isOk, Except.toBool]
  | ok a => simp [Except.isOk, Except.toBool]

/-- A result that is there without regard to failures is that of a success. -/
theorem toOption_eq_some_iff {x : Except ε α} {a : α} : x.toOption = some a ↔ x = .ok a := by
  cases x with
  | error err => simp [Except.toOption]
  | ok b => simp [Except.toOption]

/-- What is seen of a result, without regard to failures, is seen of a success. -/
theorem toOption_bind_eq_some_iff {x : Except ε α} {f : α → Option β} {b : β} :
    x.toOption.bind f = some b ↔ ∃ a, x = .ok a ∧ f a = some b := by
  simp only [Option.bind_eq_some_iff, toOption_eq_some_iff]

/-- A failure told in other words is no success. -/
theorem mapError_eq_ok_iff {x : Except ε α} {f : ε → ε'} {a : α} :
    x.mapError f = .ok a ↔ x = .ok a := by
  cases x with
  | error err => simp [Except.mapError]
  | ok b => simp [Except.mapError]

/-- A list of computations succeeds with the results of its members, one by one. -/
theorem mapM_eq_ok_iff {f : α → Except ε β} {xs : List α} {ys : List β} :
    xs.mapM f = .ok ys ↔ List.Forall₂ (fun x y => f x = .ok y) xs ys := by
  induction xs generalizing ys with
  | nil =>
    cases ys with
    | nil => simp [pure, Except.pure]
    | cons y ys => simp [pure, Except.pure]
  | cons x xs ih =>
    rw [List.mapM_cons, bind_eq_ok_iff]
    constructor
    · rintro ⟨y, hy, hrest⟩
      obtain ⟨others, hothers, heq⟩ := bind_eq_ok_iff.1 hrest
      cases heq
      exact .cons hy (ih.1 hothers)
    · rintro (_ | ⟨hy, hrest⟩)
      exact ⟨_, hy, bind_eq_ok_iff.2 ⟨_, ih.2 hrest, rfl⟩⟩

/-- Each member of a list that is matched with another one is matched with some member. -/
theorem exists_mem_of_forall₂ {rel : α → β → Prop} {xs : List α} {ys : List β} {x : α}
    (h : List.Forall₂ rel xs ys) (hx : x ∈ xs) : ∃ y ∈ ys, rel x y := by
  induction h with
  | nil => exact absurd hx List.not_mem_nil
  | @cons z y xs ys hz _ ih =>
    rcases List.mem_cons.1 hx with rfl | hrest
    · exact ⟨y, List.mem_cons_self, hz⟩
    · obtain ⟨other, hother, hrel⟩ := ih hrest
      exact ⟨other, List.mem_cons_of_mem y hother, hrel⟩

/-- Each result of a list of computations comes from one of them. -/
theorem exists_of_mem_mapM {f : α → Except ε β} {xs : List α} {ys : List β} {y : β}
    (h : xs.mapM f = .ok ys) (hy : y ∈ ys) : ∃ x ∈ xs, f x = .ok y :=
  exists_mem_of_forall₂ (mapM_eq_ok_iff.1 h).flip hy

/-- Each of a list of computations that succeed has its result among the results. -/
theorem exists_mem_of_mapM {f : α → Except ε β} {xs : List α} {ys : List β} {x : α}
    (h : xs.mapM f = .ok ys) (hx : x ∈ xs) : ∃ y ∈ ys, f x = .ok y :=
  exists_mem_of_forall₂ (mapM_eq_ok_iff.1 h) hx

/-- The results of a list of computations are those of its members. -/
theorem mem_iff_of_mapM {f : α → Except ε β} {xs : List α} {ys : List β} {y : β}
    (h : xs.mapM f = .ok ys) : y ∈ ys ↔ ∃ x ∈ xs, f x = .ok y := by
  refine ⟨exists_of_mem_mapM h, ?_⟩
  rintro ⟨x, hx, hy⟩
  obtain ⟨z, hz, hxz⟩ := exists_mem_of_mapM h hx
  rwa [Except.ok.inj (hy.symm.trans hxz)]

/-- A list of computations fails as the first of them that does. -/
theorem mapM_eq_error_iff {f : α → Except ε β} {xs : List α} {err : ε} :
    xs.mapM f = .error err ↔ ∃ before x after, xs = before ++ x :: after ∧
      (∀ y ∈ before, ∃ z, f y = .ok z) ∧ f x = .error err := by
  induction xs with
  | nil => simp [pure, Except.pure]
  | cons x xs ih =>
    rw [List.mapM_cons, bind_eq_error_iff]
    constructor
    · rintro (hx | ⟨y, hy, hrest⟩)
      · exact ⟨[], x, xs, rfl, by simp, hx⟩
      · rcases bind_eq_error_iff.1 hrest with htail | ⟨ys, _, hpure⟩
        · obtain ⟨before, other, after, rfl, hbefore, hother⟩ := ih.1 htail
          exact ⟨x :: before, other, after, rfl,
            List.forall_mem_cons.2 ⟨⟨y, hy⟩, hbefore⟩, hother⟩
        · cases hpure
    · rintro ⟨before, other, after, heq, hbefore, hother⟩
      cases before with
      | nil =>
        obtain ⟨rfl, rfl⟩ := List.cons.inj heq
        exact Or.inl hother
      | cons first before =>
        obtain ⟨rfl, rfl⟩ := List.cons.inj heq
        obtain ⟨⟨y, hy⟩, hbefore⟩ := List.forall_mem_cons.1 hbefore
        have htail := ih.2 ⟨before, other, after, rfl, hbefore, hother⟩
        exact Or.inr ⟨y, hy, bind_eq_error_iff.2 (Or.inl htail)⟩

/-- A list of computations fails as one of them does. -/
theorem exists_of_mapM_eq_error {f : α → Except ε β} {xs : List α} {err : ε}
    (h : xs.mapM f = .error err) : ∃ x ∈ xs, f x = .error err := by
  obtain ⟨before, x, after, rfl, -, hx⟩ := mapM_eq_error_iff.1 h
  exact ⟨x, List.mem_append_right before List.mem_cons_self, hx⟩

/-- A list of computations each of which succeeds succeeds. -/
theorem exists_mapM_eq_ok {f : α → Except ε β} {xs : List α} (h : ∀ x ∈ xs, ∃ y, f x = .ok y) :
    ∃ ys, xs.mapM f = .ok ys := by
  cases hresult : xs.mapM f with
  | ok ys => exact ⟨ys, rfl⟩
  | error err =>
    obtain ⟨x, hx, herr⟩ := exists_of_mapM_eq_error hresult
    obtain ⟨y, hy⟩ := h x hx
    rw [hy] at herr
    cases herr

/-- A list of computations succeeds exactly when each of them does. -/
theorem exists_mapM_eq_ok_iff {f : α → Except ε β} {xs : List α} :
    (∃ ys, xs.mapM f = .ok ys) ↔ ∀ x ∈ xs, ∃ y, f x = .ok y := by
  refine ⟨?_, exists_mapM_eq_ok⟩
  rintro ⟨ys, hys⟩ x hx
  obtain ⟨y, _, hy⟩ := exists_mem_of_mapM hys hx
  exact ⟨y, hy⟩

end EbuildGraph
