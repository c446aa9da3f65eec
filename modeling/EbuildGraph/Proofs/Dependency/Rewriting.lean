import EbuildGraph.Dependency.Conditional
import EbuildGraph.Dependency.Substitution
import EbuildGraph.Proofs.Dependency.Meaning
import EbuildGraph.Proofs.Success

/-!
# Deciding conditions and replacing leaves

What the two passes do to the kinds of nodes and to the meaning of an expression, and
that a replacement that may fail is, when it does not, an ordinary one.

Main results:

- Theorem {lit}`Expr.avoids_decideUse`: no condition is left once conditions are decided.
- Theorem {lit}`Expr.holds_substitute`: an expression with its leaves replaced holds when
  the expression does with the replacements as its leaves.
- Theorem {lit}`Spec.trySubstitute_eq_ok`: a successful replacement that might have failed
  is an ordinary replacement.
-/

namespace EbuildGraph
namespace Dependency
namespace Expr

/-! ## Kinds of nodes -/

/-- Once conditions are decided, none is left. -/
theorem avoids_decideUse (flags : NameSet) (e : Expr) :
    (e.decideUse flags).Avoids .useConditional := by
  have hgroup : ∀ es : List Expr, (∀ e ∈ es, (e.decideUse flags).Avoids .useConditional) →
      ∀ c ∈ decideUseAll flags es, c.Avoids .useConditional := by
    intro es h
    rw [decideUseAll_eq_map]
    exact List.forall_mem_map.2 h
  induction e with
  | allOf es ih => exact avoids_iff.2 ⟨by simp [decideUse, kind], hgroup es ih⟩
  | anyOf es ih => exact avoids_iff.2 ⟨by simp [decideUse, kind], hgroup es ih⟩
  | exactlyOneOf es ih => exact avoids_iff.2 ⟨by simp [decideUse, kind], hgroup es ih⟩
  | atMostOneOf es ih => exact avoids_iff.2 ⟨by simp [decideUse, kind], hgroup es ih⟩
  | useConditional flag expect es ih =>
    rw [decideUse]
    split
    · exact avoids_iff.2 ⟨by simp [kind], hgroup es ih⟩
    · exact avoids_true (by decide)
  | package atom blocking =>
    exact avoids_iff.2 ⟨by simp [decideUse, kind], by simp [decideUse, children]⟩

/-- Replacing leaves adds only the kinds of nodes that the replacements have. -/
theorem avoids_substitute {f : Atom → Blocking → Expr} {k : Kind}
    (hf : ∀ atom blocking, (f atom blocking).Avoids k) {e : Expr} (h : e.Avoids k) :
    (e.substitute f).Avoids k := by
  have hgroup : ∀ es : List Expr, (∀ e ∈ es, (e.substitute f).Avoids k) →
      ∀ c ∈ substituteAll f es, c.Avoids k := by
    intro es h
    rw [substituteAll_eq_map]
    exact List.forall_mem_map.2 h
  induction e with
  | allOf es ih => exact avoids_iff.2 ⟨h.kind_ne, hgroup es fun c hc => ih c hc (h.child hc)⟩
  | anyOf es ih => exact avoids_iff.2 ⟨h.kind_ne, hgroup es fun c hc => ih c hc (h.child hc)⟩
  | exactlyOneOf es ih =>
    exact avoids_iff.2 ⟨h.kind_ne, hgroup es fun c hc => ih c hc (h.child hc)⟩
  | atMostOneOf es ih =>
    exact avoids_iff.2 ⟨h.kind_ne, hgroup es fun c hc => ih c hc (h.child hc)⟩
  | useConditional flag expect es ih =>
    exact avoids_iff.2 ⟨h.kind_ne, hgroup es fun c hc => ih c hc (h.child hc)⟩
  | package atom blocking => exact hf atom blocking

/-! ## Meaning of replaced leaves -/

/-- A replaced leaf counts as what stands in its place. -/
theorem holds_substitute (f : Atom → Blocking → Expr) (leaf : Atom → Blocking → Bool)
    (flags : NameSet) (e : Expr) :
    (e.substitute f).holds leaf flags =
      e.holds (fun atom blocking => (f atom blocking).holds leaf flags) flags := by
  induction e with
  | allOf es ih => rw [substitute, substituteAll_eq_map, holds, holds, holdsAll_map ih]
  | anyOf es ih => rw [substitute, substituteAll_eq_map, holds, holds, holdsAll_map ih]
  | exactlyOneOf es ih => rw [substitute, substituteAll_eq_map, holds, holds, holdsAll_map ih]
  | atMostOneOf es ih => rw [substitute, substituteAll_eq_map, holds, holds, holdsAll_map ih]
  | useConditional flag expect es ih =>
    rw [substitute, substituteAll_eq_map, holds, holds, holdsAll_map ih]
  | package atom blocking => rw [substitute, holds]

/-! ## Replacements that may fail -/

section TrySubstitute

variable {f : Atom → Blocking → Except Error Expr} {g : Atom → Blocking → Expr}

/-- A list of members is replaced one by one. -/
theorem trySubstituteAll_eq_ok {es out : List Expr}
    (hes : ∀ e ∈ es, ∀ x, e.trySubstitute f = .ok x → x = e.substitute g)
    (h : trySubstituteAll f es = .ok out) : out = es.map (substitute g) := by
  induction es generalizing out with
  | nil => exact (Except.ok.inj h).symm
  | cons e rest ih =>
    obtain ⟨he, hrest⟩ := List.forall_mem_cons.1 hes
    rw [trySubstituteAll] at h
    split at h
    · cases h
    · next x hx =>
      obtain ⟨tail, htail, rfl⟩ := map_eq_ok_iff.1 h
      rw [he x hx, ih hrest htail, List.map_cons]

/-- A replacement that succeeds is the ordinary one by the same expressions. -/
theorem trySubstitute_eq_ok (hfg : ∀ atom blocking x, f atom blocking = .ok x →
    g atom blocking = x) {e x : Expr} (h : e.trySubstitute f = .ok x) : x = e.substitute g := by
  induction e generalizing x with
  | allOf es ih =>
    obtain ⟨out, hout, rfl⟩ := map_eq_ok_iff.1 h
    rw [substitute, substituteAll_eq_map, trySubstituteAll_eq_ok (fun e he x => ih e he) hout]
  | anyOf es ih =>
    obtain ⟨out, hout, rfl⟩ := map_eq_ok_iff.1 h
    rw [substitute, substituteAll_eq_map, trySubstituteAll_eq_ok (fun e he x => ih e he) hout]
  | exactlyOneOf es ih =>
    obtain ⟨out, hout, rfl⟩ := map_eq_ok_iff.1 h
    rw [substitute, substituteAll_eq_map, trySubstituteAll_eq_ok (fun e he x => ih e he) hout]
  | atMostOneOf es ih =>
    obtain ⟨out, hout, rfl⟩ := map_eq_ok_iff.1 h
    rw [substitute, substituteAll_eq_map, trySubstituteAll_eq_ok (fun e he x => ih e he) hout]
  | useConditional flag expect es ih =>
    obtain ⟨out, hout, rfl⟩ := map_eq_ok_iff.1 h
    rw [substitute, substituteAll_eq_map, trySubstituteAll_eq_ok (fun e he x => ih e he) hout]
  | package atom blocking => exact (hfg atom blocking x h).symm

end TrySubstitute

end Expr

/-- A replacement of the leaves of a dependency that succeeds is one that cannot fail. -/
theorem Spec.trySubstitute_eq_ok {f : Atom → Blocking → Except Error Expr}
    {g : Atom → Blocking → Expr}
    (hfg : ∀ atom blocking x, f atom blocking = .ok x → g atom blocking = x) {d out : Spec}
    (h : d.trySubstitute f = .ok out) : out = d.substitute g := by
  obtain ⟨children, hchildren, rfl⟩ := map_eq_ok_iff.1 h
  rw [Spec.substitute, Expr.substituteAll_eq_map]
  exact congrArg Spec.mk
    (Expr.trySubstituteAll_eq_ok (fun e _ x => Expr.trySubstitute_eq_ok hfg) hchildren)

end Dependency
end EbuildGraph
