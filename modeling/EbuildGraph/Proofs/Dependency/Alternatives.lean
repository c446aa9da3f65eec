import EbuildGraph.Proofs.Dependency.Extraction
import EbuildGraph.Proofs.Dependency.Leaves

/-!
# Values that only offer alternatives

Without conditions and without groups that count their members, an expression asks for more
only as its members do.  Such an expression folds to the constant false, or nothing false is
left of it.  In the latter case the first alternative of every any-of group can be taken: no
choice remains, and no later simplification makes it false.

Main results:

- Theorem {lit}`Expr.granted_pickFirst`: first alternatives of a normal form leave no choice.
- Theorem {lit}`Spec.holds_iff_simplify_ne_false`: a value can hold exactly when it does not
  fold to the constant false.
- Theorem {lit}`Spec.exists_decidedAtoms`: a value that does not fold to the constant false
  has atoms.
- Theorem {lit}`Spec.trySubstitute_of_leaves`: a replacement succeeds when it does on all leaves.
-/

namespace EbuildGraph
namespace Dependency
namespace Expr

/-! ## Expressions of all-of and any-of groups -/

/-- The expression has no other groups than all-of and any-of groups. -/
structure IsPlain (e : Expr) : Prop where
  conditional : e.Avoids .useConditional
  exactlyOneOf : e.Avoids .exactlyOneOf
  atMostOneOf : e.Avoids .atMostOneOf

/-- The children of an expression have no other groups either. -/
theorem IsPlain.child {e c : Expr} (h : e.IsPlain) (hc : c ∈ e.children) : c.IsPlain :=
  ⟨h.conditional.child hc, h.exactlyOneOf.child hc, h.atMostOneOf.child hc⟩

/-- Simplifying makes no other groups. -/
theorem IsPlain.simplify {e : Expr} (h : e.IsPlain) : e.simplify.IsPlain :=
  ⟨avoids_simplify (by decide) (by decide) h.conditional,
    avoids_simplify (by decide) (by decide) h.exactlyOneOf,
    avoids_simplify (by decide) (by decide) h.atMostOneOf⟩

/-- Deciding conditions adds no kind of node but all-of groups. -/
theorem avoids_decideUse_of_avoids {k : Kind} (hall : k ≠ .allOf) (flags : NameSet) {e : Expr}
    (h : e.Avoids k) : (e.decideUse flags).Avoids k := by
  have hgroup : ∀ es : List Expr, (∀ e ∈ es, (e.decideUse flags).Avoids k) →
      ∀ c ∈ decideUseAll flags es, c.Avoids k := by
    intro es h
    rw [decideUseAll_eq_map]
    exact List.forall_mem_map.2 h
  induction e with
  | allOf es ih => exact avoids_iff.2 ⟨h.kind_ne, hgroup es fun c hc => ih c hc (h.child hc)⟩
  | anyOf es ih => exact avoids_iff.2 ⟨h.kind_ne, hgroup es fun c hc => ih c hc (h.child hc)⟩
  | exactlyOneOf es ih =>
    exact avoids_iff.2 ⟨h.kind_ne, hgroup es fun c hc => ih c hc (h.child hc)⟩
  | atMostOneOf es ih =>
    exact avoids_iff.2 ⟨h.kind_ne, hgroup es fun c hc => ih c hc (h.child hc)⟩
  | useConditional flag expect es ih =>
    rw [decideUse]
    split
    · exact avoids_iff.2 ⟨hall.symm, hgroup es fun c hc => ih c hc (h.child hc)⟩
    · exact avoids_true hall
  | package atom blocking => exact h

/-! ## First alternatives -/

variable {assign : Atom → Bool}

/-- Members whose atoms are all true fold to an all-of group whose atoms are. -/
theorem granted_foldAllOf_of_forall {members : List Expr} (hfalse : false_ ∉ members)
    (h : ∀ m ∈ members, m.Granted assign) : (foldAllOf members).Granted assign := by
  have hopen : ∀ c ∈ openGroups members, c.Granted assign := by
    intro c hc
    obtain ⟨m, hm, hcm⟩ := mem_openGroups_iff.1 hc
    exact granted_iff_forall_allOfChildren.1 (h m hm) c hcm
  rw [foldAllOf_of_not_mem hfalse]
  rcases unwrapSingleton_cases allOf (openGroups members) with ⟨e, hone, heq⟩ | ⟨_, heq⟩
  · rw [heq]
    exact hopen e (by simp [hone])
  · rw [heq]
    exact granted_allOf_iff.2 hopen

/-- Taking first alternatives of a normal form leaves no choice.  No member of its any-of
groups is false, so it does not matter which one is taken. -/
theorem granted_pickFirst {e : Expr} (hassign : ∀ atom, assign atom = true) (h : e.IsNormal)
    (hplain : e.IsPlain) (hfalse : e ≠ false_) : (thenSimplify pickFirst e).Granted assign := by
  induction e with
  | allOf es ih =>
    obtain ⟨hreduced, hchildren⟩ := isNormal_allOf_iff.1 h
    have hnone : false_ ∉ es := by
      rcases hreduced with rfl | ⟨_, hnone, _⟩
      · exact List.not_mem_nil
      · exact hnone
    have hnoFalse : false_ ∉ es.map (thenSimplify pickFirst) := by
      refine not_mem_map_of_reflects ?_ hnone
      intro e he
      exact (reflectsConstants_pickFirst (hchildren e he) (hplain.child he).conditional).2
    rw [thenSimplify_allOf pickFirst_allOf]
    apply granted_foldAllOf_of_forall hnoFalse
    intro m hm
    obtain ⟨e, he, rfl⟩ := List.mem_map.1 hm
    have hne : e ≠ false_ := fun heq => hnone (heq ▸ he)
    exact ih e he (hchildren e he) (hplain.child he) hne
  | anyOf es ih =>
    obtain ⟨rfl | ⟨_, _, hnone⟩, hchildren⟩ := isNormal_anyOf_iff.1 h
    · exact absurd rfl hfalse
    · rcases es with _ | ⟨e, rest⟩
      · exact absurd rfl hfalse
      · have he : e ∈ e :: rest := List.mem_cons_self
        have hne : e ≠ false_ := fun heq => hnone (heq ▸ he)
        rw [thenSimplify_pickFirst_anyOf_cons]
        exact ih e he (hchildren e he) (hplain.child he) hne
  | exactlyOneOf es ih => exact absurd rfl hplain.exactlyOneOf.kind_ne
  | atMostOneOf es ih => exact absurd rfl hplain.atMostOneOf.kind_ne
  | useConditional flag expect es ih => exact absurd rfl hplain.conditional.kind_ne
  | package atom blocking => exact ⟨_, rfl, fun atom _ => hassign atom⟩

/-! ## Replacements that succeed -/

section TrySubstitute

variable {f : Atom → Blocking → Except Error Expr} {g : Atom → Blocking → Expr}

/-- A replacement succeeds on expressions when it does on each of them. -/
theorem trySubstituteAll_of_forall {es : List Expr}
    (h : ∀ e ∈ es, e.trySubstitute f = .ok (e.substitute g)) :
    trySubstituteAll f es = .ok (substituteAll g es) := by
  induction es with
  | nil => rfl
  | cons e rest ih =>
    obtain ⟨he, hrest⟩ := List.forall_mem_cons.1 h
    rw [trySubstituteAll, he]
    dsimp only
    rw [ih hrest]
    rfl

/-- A replacement that succeeds on every leaf succeeds. -/
theorem trySubstitute_of_leaves {e : Expr}
    (h : ∀ leaf ∈ e.leaves, f leaf.1 leaf.2 = .ok (g leaf.1 leaf.2)) :
    e.trySubstitute f = .ok (e.substitute g) := by
  have hgroup : ∀ es : List Expr,
      (∀ leaf ∈ leavesOfAll es, f leaf.1 leaf.2 = .ok (g leaf.1 leaf.2)) →
      (∀ e ∈ es, (∀ leaf ∈ e.leaves, f leaf.1 leaf.2 = .ok (g leaf.1 leaf.2)) →
        e.trySubstitute f = .ok (e.substitute g)) →
      trySubstituteAll f es = .ok (substituteAll g es) := by
    intro es hes ih
    apply trySubstituteAll_of_forall
    intro e he
    exact ih e he fun leaf hleaf => hes leaf (mem_leavesOfAll_iff.2 ⟨e, he, hleaf⟩)
  induction e with
  | allOf es ih | anyOf es ih | exactlyOneOf es ih | atMostOneOf es ih
  | useConditional flag expect es ih =>
    rw [trySubstitute, hgroup es h ih]
    rfl
  | package atom blocking => exact h (atom, blocking) (List.mem_singleton.2 rfl)

/-- A replacement that succeeds on expressions does on each of them. -/
theorem exists_of_trySubstituteAll {es out : List Expr} (h : trySubstituteAll f es = .ok out)
    {e : Expr} (he : e ∈ es) : ∃ x, e.trySubstitute f = .ok x := by
  induction es generalizing out with
  | nil => exact absurd he List.not_mem_nil
  | cons first rest ih =>
    rw [trySubstituteAll] at h
    split at h
    · cases h
    next x hx =>
    obtain ⟨tail, htail, _⟩ := map_eq_ok_iff.1 h
    rcases List.mem_cons.1 he with rfl | he
    · exact ⟨x, hx⟩
    · exact ih htail he

/-- A replacement that succeeds does so on every leaf. -/
theorem exists_of_trySubstitute {e x : Expr} (h : e.trySubstitute f = .ok x)
    {leaf : Atom × Blocking} (hleaf : leaf ∈ e.leaves) : ∃ y, f leaf.1 leaf.2 = .ok y := by
  induction e generalizing x with
  | allOf es ih | anyOf es ih | exactlyOneOf es ih | atMostOneOf es ih
  | useConditional flag expect es ih =>
    obtain ⟨out, hout, _⟩ := map_eq_ok_iff.1 h
    obtain ⟨c, hc, hin⟩ := mem_leavesOfAll_iff.1 hleaf
    obtain ⟨y, hy⟩ := exists_of_trySubstituteAll hout hc
    exact ih c hc hy hin
  | package atom blocking =>
    rw [List.mem_singleton.1 hleaf]
    exact ⟨x, h⟩

end TrySubstitute

end Expr

/-! ## Values -/

namespace Spec

/-- A replacement succeeds on an expression when it does on all its leaves. -/
theorem trySubstitute_of_leaves {f : Atom → Blocking → Except Error Expr}
    {g : Atom → Blocking → Expr} {d : Spec}
    (h : ∀ leaf ∈ d.leaves, f leaf.1 leaf.2 = .ok (g leaf.1 leaf.2)) :
    d.trySubstitute f = .ok (d.substitute g) := by
  have hall : d.asExpr.trySubstitute f = .ok (d.asExpr.substitute g) :=
    Expr.trySubstitute_of_leaves h
  obtain ⟨children, hchildren, heq⟩ := map_eq_ok_iff.1 hall
  rw [trySubstitute, hchildren, Expr.allOf.inj heq]
  rfl

/-- A replacement that succeeds on an expression does on each of its leaves. -/
theorem exists_of_trySubstitute {f : Atom → Blocking → Except Error Expr} {d out : Spec}
    (h : d.trySubstitute f = .ok out) {leaf : Atom × Blocking} (hleaf : leaf ∈ d.leaves) :
    ∃ e, f leaf.1 leaf.2 = .ok e := by
  obtain ⟨children, hchildren, _⟩ := map_eq_ok_iff.1 h
  have hall : d.asExpr.trySubstitute f = .ok (.allOf children) :=
    map_eq_ok_iff.2 ⟨children, hchildren, rfl⟩
  exact Expr.exists_of_trySubstitute hall hleaf

variable {d : Spec}

/-- A value that folds to the constant false is still so after first alternatives are taken. -/
theorem any_isFalse_of_simplify_eq_false (h : d.asExpr.simplify = Expr.false_) :
    d.simplify.pickFirst.simplify.children.any Expr.isFalse = true := by
  rw [simplify_pickFirst_simplify, h]
  rfl

/-- First alternatives of a value that does not fold to the constant false can be taken: no
child is false, and no choice remains. -/
theorem exists_decidedAtoms (hplain : d.asExpr.IsPlain) (h : d.asExpr.simplify ≠ Expr.false_) :
    d.simplify.pickFirst.simplify.children.any Expr.isFalse = false ∧
      ∃ atoms, d.simplify.pickFirst.simplify.decidedAtoms = .ok atoms := by
  have hnormal := Expr.isNormal_simplify d.asExpr
  have hpicked : (Expr.thenSimplify Expr.pickFirst d.asExpr.simplify).IsNormal :=
    Expr.isNormal_thenSimplify Expr.pickFirst d.asExpr.simplify
  have hne : Expr.thenSimplify Expr.pickFirst d.asExpr.simplify ≠ Expr.false_ :=
    fun heq => h ((Expr.reflectsConstants_pickFirst hnormal hplain.simplify.conditional).2 heq)
  have hgranted : (Expr.thenSimplify Expr.pickFirst d.asExpr.simplify).Granted fun _ => true :=
    Expr.granted_pickFirst (fun _ => rfl) hnormal hplain.simplify h
  rw [simplify_pickFirst_simplify]
  constructor
  · rw [List.any_eq_false]
    intro c hc hfalse
    exact (hpicked.ne_of_mem_allOfChildren hne hc).1 (Expr.isFalse_iff.1 hfalse)
  · obtain ⟨atoms, hatoms, _⟩ :=
      Expr.forall_granted_iff.2 (Expr.granted_iff_forall_allOfChildren.1 hgranted)
    exact ⟨atoms, hatoms⟩

/-- A value holds with all its atoms true exactly when it does not fold to the constant
false. -/
theorem holds_iff_simplify_ne_false (hplain : d.asExpr.IsPlain) (flags : NameSet) :
    d.asExpr.holds (Expr.leafHolds fun _ => true) flags = true ↔
      d.asExpr.simplify ≠ Expr.false_ := by
  rw [← Expr.holds_simplify]
  constructor
  · intro hholds heq
    rw [heq] at hholds
    cases hholds
  · intro hne
    have hnormal := Expr.isNormal_simplify d.asExpr
    exact Expr.holds_of_granted hnormal hplain.simplify.conditional hne
      (Expr.granted_pickFirst (fun _ => rfl) hnormal hplain.simplify hne) flags

end Spec
end Dependency
end EbuildGraph
