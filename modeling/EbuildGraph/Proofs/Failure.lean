import EbuildGraph.Error

/-!
# Failures of steps

Cycles and inconsistent selections are found by the search for records and by nothing else.
That a step fails for other causes only follows from its parts, as that it succeeds does.

Main definitions:

- {lit}`Error.isOfSearch`: whether a failure comes from the search.
- {lit}`FailsOutside`: a step whose failures come from elsewhere.

Main results:

- Theorems {lit}`FailsOutside.bind`, {lit}`FailsOutside.map` and {lit}`FailsOutside.mapM`:
  steps made of such steps.
-/

namespace EbuildGraph

/-- Whether the innermost cause of a failure is one that only the search finds. -/
def Error.isOfSearch (err : Error) : Bool :=
  match err.innermostCause with
  | .cycle _ => true
  | .inconsistentSelection _ _ _ => true
  | _ => false

/-- A cycle is found by the search only. -/
theorem Error.isOfSearch_of_cycle {err : Error} {label : String}
    (h : err.innermostCause = .cycle label) : err.isOfSearch = true := by
  rw [isOfSearch, h]

/-- An inconsistent selection is found by the search only. -/
theorem Error.isOfSearch_of_inconsistentSelection {err : Error} {label got want : String}
    (h : err.innermostCause = .inconsistentSelection label got want) : err.isOfSearch = true := by
  rw [isOfSearch, h]

variable {α β ε : Type}

/-- No failure of a step comes from the search. -/
def FailsOutside (x : Except Error α) : Prop :=
  ∀ err, x = .error err → err.isOfSearch = false

namespace FailsOutside

theorem ok (a : α) : FailsOutside (.ok a) :=
  nofun

theorem error {err : Error} (h : err.isOfSearch = false) :
    FailsOutside (.error err : Except Error α) := by
  intro cause heq
  cases heq
  exact h

/-- Two steps fail for other causes only if both of them do. -/
theorem bind {x : Except Error α} {f : α → Except Error β} (hx : FailsOutside x)
    (hf : ∀ a, FailsOutside (f a)) : FailsOutside (x >>= f) := by
  cases x with
  | error err => exact .error (hx err rfl)
  | ok a => exact hf a

/-- What is made of a result fails for other causes only if the step does. -/
theorem map {x : Except Error α} (hx : FailsOutside x) (f : α → β) : FailsOutside (x.map f) := by
  cases x with
  | error err => exact .error (hx err rfl)
  | ok a => exact .ok (f a)

/-- A fault that is told as a failure of another kind. -/
theorem mapError {x : Except ε α} {f : ε → Error} (hf : ∀ fault, (f fault).isOfSearch = false) :
    FailsOutside (x.mapError f) := by
  cases x with
  | error fault => exact .error (hf fault)
  | ok a => exact .ok a

/-- Steps over a list fail for other causes only if each of them does. -/
theorem mapM {f : α → Except Error β} {xs : List α} (hf : ∀ x ∈ xs, FailsOutside (f x)) :
    FailsOutside (xs.mapM f) := by
  induction xs with
  | nil => exact .ok []
  | cons x rest ih =>
    obtain ⟨hfirst, hrest⟩ := List.forall_mem_cons.1 hf
    rw [List.mapM_cons]
    exact hfirst.bind fun y => (ih hrest).bind fun ys => .ok (y :: ys)

end FailsOutside

end EbuildGraph
