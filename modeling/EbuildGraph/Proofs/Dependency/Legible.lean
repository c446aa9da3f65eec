import EbuildGraph.Proofs.Dependency.Filter
import EbuildGraph.Proofs.Dependency.Token

/-!
# Expressions that can be read again

Whether an expression can be written and read again depends on the names of its flags and on
its atoms alone.  The passes over an expression take flags and atoms from it and make up none,
so what they make of a legible expression is legible.

Main definitions:

- {lit}`Expr.IsLegible`: whether flags and atoms are read as they are written.
- {lit}`Spec.LeadsTo`: what a value becomes when it goes through passes.

Main result:

- Theorem {lit}`Spec.LeadsTo.isLegible`: a legible value leads to legible values only.
-/

namespace EbuildGraph

namespace Dependency

/-- Whether characters may name a USE flag in a condition. -/
def IsFlagName (cs : List Char) : Prop :=
  ∃ c rest, cs = c :: rest ∧ c.isAlphanum = true ∧ rest.all isUseFlagChar = true

namespace Expr

/-! ## Legible expressions -/

/-- Whether the flag or the atom of a node is read as it is written. -/
def HeadIsLegible : Expr → Prop
  | useConditional flag _ _ => IsFlagName flag.toList
  | package atom _ => atom.IsLegible
  | _ => True

/-- Whether the flags and the atoms of an expression are read as they are written. -/
def IsLegible (e : Expr) : Prop :=
  ∀ x ∈ e.nodes, x.HeadIsLegible

/-- An expression is legible if its head is and all its children are. -/
theorem isLegible_iff {e : Expr} :
    e.IsLegible ↔ e.HeadIsLegible ∧ ∀ c ∈ e.children, c.IsLegible :=
  forall_mem_nodes_iff

/-- The head of a legible expression is legible. -/
theorem IsLegible.head {e : Expr} (h : e.IsLegible) : e.HeadIsLegible :=
  (isLegible_iff.1 h).1

/-- The children of a legible expression are legible. -/
theorem IsLegible.child {e c : Expr} (h : e.IsLegible) (hc : c ∈ e.children) : c.IsLegible :=
  (isLegible_iff.1 h).2 c hc

/-- An expression with neither flag nor atom at its root is as legible as its children. -/
theorem isLegible_group {e : Expr} (hhead : e.HeadIsLegible) {es : List Expr}
    (heq : e.children = es) (h : ∀ c ∈ es, c.IsLegible) : e.IsLegible :=
  isLegible_iff.2 ⟨hhead, heq ▸ h⟩

theorem isLegible_true : true_.IsLegible :=
  isLegible_group trivial rfl nofun

theorem isLegible_false : false_.IsLegible :=
  isLegible_group trivial rfl nofun

/-- What a legible expression asks for side by side is legible. -/
theorem IsLegible.of_mem_allOfChildren {e c : Expr} (h : e.IsLegible)
    (hc : c ∈ e.allOfChildren) : c.IsLegible := by
  cases e with
  | allOf es => exact h.child hc
  | _ => exact List.mem_singleton.1 hc ▸ h

/-! ## Simplification -/

section Folding

variable {members : List Expr} (h : ∀ m ∈ members, m.IsLegible)
include h

/-- A legible group is legible without itself around one member. -/
theorem isLegible_unwrapSingleton {group : List Expr → Expr} (hgroup : (group members).IsLegible) :
    (unwrapSingleton group members).IsLegible := by
  rcases unwrapSingleton_cases group members with ⟨e, hone, heq⟩ | ⟨_, heq⟩
  · rw [heq]
    exact h e (by simp [hone])
  · rw [heq]
    exact hgroup

theorem isLegible_of_mem_dropFalse {m : Expr} (hm : m ∈ dropFalse members) : m.IsLegible :=
  h m (mem_dropFalse_iff.1 hm).1

/-- Folding an all-of group of legible members gives a legible expression. -/
theorem isLegible_foldAllOf : (foldAllOf members).IsLegible := by
  have hopen : ∀ c ∈ openGroups members, c.IsLegible := by
    intro c hc
    obtain ⟨m, hm, hcm⟩ := mem_openGroups_iff.1 hc
    exact (h m hm).of_mem_allOfChildren hcm
  unfold foldAllOf
  split
  · exact isLegible_false
  · exact isLegible_unwrapSingleton hopen (isLegible_group trivial rfl hopen)

/-- Folding an any-of group of legible members gives a legible expression. -/
theorem isLegible_foldAnyOf : (foldAnyOf members).IsLegible := by
  have hkept : ∀ c ∈ dropFalse members, c.IsLegible := fun _ => isLegible_of_mem_dropFalse h
  unfold foldAnyOf
  split
  · exact isLegible_true
  · exact isLegible_unwrapSingleton hkept (isLegible_group trivial rfl hkept)

/-- Folding an exactly-one-of group of legible members gives a legible expression. -/
theorem isLegible_foldExactlyOneOf : (foldExactlyOneOf members).IsLegible := by
  have hkept : ∀ c ∈ dropFalse members, c.IsLegible := fun _ => isLegible_of_mem_dropFalse h
  unfold foldExactlyOneOf
  dsimp only
  split
  · exact isLegible_false
  split
  · exact isLegible_false
  · next e hone =>
    split
    · exact isLegible_true
    · exact hkept e (by simp [hone])
  · exact isLegible_group trivial rfl hkept

/-- Folding an at-most-one-of group of legible members gives a legible expression. -/
theorem isLegible_foldAtMostOneOf : (foldAtMostOneOf members).IsLegible := by
  unfold foldAtMostOneOf
  dsimp only
  split
  · exact isLegible_false
  split
  · exact isLegible_true
  · exact isLegible_group trivial rfl fun _ => isLegible_of_mem_dropFalse h

/-- Folding legible members under a flag that can be read gives a legible expression. -/
theorem isLegible_foldConditional {flag : String} (hflag : IsFlagName flag.toList)
    (expect : Bool) : (foldConditional flag expect members).IsLegible := by
  unfold foldConditional
  dsimp only
  split
  · exact isLegible_true
  · exact isLegible_group hflag rfl fun _ => (isLegible_foldAllOf h).of_mem_allOfChildren

end Folding

/-- Simplifying a legible expression gives a legible one. -/
theorem IsLegible.simplify {e : Expr} (h : e.IsLegible) : e.simplify.IsLegible := by
  induction e with
  | allOf es ih =>
    rw [simplify_allOf]
    exact isLegible_foldAllOf (List.forall_mem_map.2 fun c hc => ih c hc (h.child hc))
  | anyOf es ih =>
    rw [simplify_anyOf]
    exact isLegible_foldAnyOf (List.forall_mem_map.2 fun c hc => ih c hc (h.child hc))
  | exactlyOneOf es ih =>
    rw [simplify_exactlyOneOf]
    exact isLegible_foldExactlyOneOf (List.forall_mem_map.2 fun c hc => ih c hc (h.child hc))
  | atMostOneOf es ih =>
    rw [simplify_atMostOneOf]
    exact isLegible_foldAtMostOneOf (List.forall_mem_map.2 fun c hc => ih c hc (h.child hc))
  | useConditional flag expect es ih =>
    rw [simplify_useConditional]
    exact isLegible_foldConditional (List.forall_mem_map.2 fun c hc => ih c hc (h.child hc))
      h.head expect
  | package atom blocking => exact h

/-! ## Conditions and alternatives -/

/-- Deciding the conditions of a legible expression gives a legible one. -/
theorem IsLegible.decideUse {e : Expr} (h : e.IsLegible) (flags : NameSet) :
    (e.decideUse flags).IsLegible := by
  induction e with
  | useConditional flag expect es ih =>
    rw [Expr.decideUse]
    split
    · refine isLegible_group trivial (decideUseAll_eq_map flags es) ?_
      exact List.forall_mem_map.2 fun c hc => ih c hc (h.child hc)
    · exact isLegible_true
  | package atom blocking => exact h
  | allOf es ih | anyOf es ih | exactlyOneOf es ih | atMostOneOf es ih =>
    refine isLegible_group trivial (decideUseAll_eq_map flags es) ?_
    exact List.forall_mem_map.2 fun c hc => ih c hc (h.child hc)

/-- Taking the first alternatives of a legible expression gives a legible one. -/
theorem IsLegible.pickFirst {e : Expr} (h : e.IsLegible) : e.pickFirst.IsLegible := by
  induction e with
  | anyOf es ih =>
    rw [Expr.pickFirst, pickFirstAll_eq_map]
    cases es with
    | nil => exact isLegible_false
    | cons first rest => exact ih first List.mem_cons_self (h.child List.mem_cons_self)
  | useConditional flag expect es ih =>
    refine isLegible_group h.head (pickFirstAll_eq_map es) ?_
    exact List.forall_mem_map.2 fun c hc => ih c hc (h.child hc)
  | package atom blocking => exact h
  | allOf es ih | exactlyOneOf es ih | atMostOneOf es ih =>
    refine isLegible_group trivial (pickFirstAll_eq_map es) ?_
    exact List.forall_mem_map.2 fun c hc => ih c hc (h.child hc)

/-! ## Blockers -/

theorem isLegible_of_mem_dropTrue {members : List Expr} (h : ∀ m ∈ members, m.IsLegible) :
    ∀ m ∈ dropTrue members, m.IsLegible :=
  fun m hm => h m (mem_dropTrue_iff.1 hm).1

/-- Expressions are legible without blockers when each of them is. -/
theorem isLegible_withoutBlockersAll {es out : List Expr} (h : ∀ e ∈ es, e.IsLegible)
    (ih : ∀ e ∈ es, ∀ {x : Expr}, e.IsLegible → e.withoutBlockers = .ok x → x.IsLegible)
    (hout : withoutBlockersAll es = .ok out) : ∀ x ∈ out, x.IsLegible :=
  forall_mem_of_withoutBlockersAll (fun e he _ => ih e he (h e he)) hout

/-- Removing the blockers of a legible expression gives a legible one. -/
theorem IsLegible.withoutBlockers {e x : Expr} (h : e.IsLegible) (hx : e.withoutBlockers = .ok x) :
    x.IsLegible := by
  induction e generalizing x with
  | package atom blocking =>
    obtain rfl := Except.ok.inj hx
    split
    · exact isLegible_true
    · exact h
  | allOf es ih | useConditional flag expect es ih =>
    obtain ⟨out, hout, rfl⟩ := map_eq_ok_iff.1 hx
    exact isLegible_group h.head rfl
      (isLegible_of_mem_dropTrue (isLegible_withoutBlockersAll (fun _ => h.child) ih hout))
  | anyOf es ih =>
    obtain ⟨out, hout, rfl⟩ := map_eq_ok_iff.1 hx
    split
    · exact isLegible_true
    · exact isLegible_group trivial rfl (isLegible_withoutBlockersAll (fun _ => h.child) ih hout)
  | exactlyOneOf es ih | atMostOneOf es ih =>
    obtain ⟨out, hout, hkeep⟩ := bind_eq_ok_iff.1 hx
    obtain ⟨_, rfl⟩ := keepWhole_eq_ok_iff.1 hkeep
    exact isLegible_group trivial rfl (isLegible_withoutBlockersAll (fun _ => h.child) ih hout)

/-! ## The part about one package -/

/-- The parts kept of expressions are legible when each of them is. -/
theorem isLegible_filterAllFor {name : String} {es out : List Expr}
    (h : ∀ e ∈ es, e.IsLegible)
    (ih : ∀ e ∈ es, ∀ {x : Expr}, e.IsLegible → e.filterFor name = .ok (some x) → x.IsLegible)
    (hout : filterAllFor name es = .ok out) : ∀ x ∈ out, x.IsLegible :=
  forall_mem_of_filterAllFor (fun e he _ => ih e he (h e he)) hout

/-- The part of a legible expression that is about a package is legible. -/
theorem IsLegible.filterFor {name : String} {e x : Expr} (h : e.IsLegible)
    (hx : e.filterFor name = .ok (some x)) : x.IsLegible := by
  induction e generalizing x with
  | allOf es ih | anyOf es ih | useConditional flag expect es ih =>
    obtain ⟨out, hout, hkeep⟩ := map_eq_ok_iff.1 hx
    obtain ⟨_, rfl⟩ := unlessEmpty_eq_some_iff.1 hkeep
    exact isLegible_group h.head rfl (isLegible_filterAllFor (fun _ => h.child) ih hout)
  | exactlyOneOf es ih | atMostOneOf es ih => cases hx
  | package atom blocking =>
    have hkept := Except.ok.inj hx
    split at hkept
    · exact Option.some.inj hkept ▸ h
    · cases hkept

end Expr

/-! ## Values -/

namespace Spec

/-- Whether the flags and the atoms of a value are read as they are written. -/
def IsLegible (d : Spec) : Prop :=
  ∀ e ∈ d.children, e.IsLegible

/-- What a value becomes when it goes through passes, as often and in whatever order. -/
inductive LeadsTo : Spec → Spec → Prop where
  | refl (d : Spec) : LeadsTo d d
  | decideUse {d x : Spec} (flags : NameSet) : LeadsTo d x → LeadsTo d (x.decideUse flags)
  | simplify {d x : Spec} : LeadsTo d x → LeadsTo d x.simplify
  | withoutBlockers {d x y : Spec} :
    LeadsTo d x → x.withoutBlockers = .ok y → LeadsTo d y
  | filterFor {d x y : Spec} (name : String) :
    LeadsTo d x → x.filterFor name = .ok y → LeadsTo d y
  | pickFirst {d x : Spec} : LeadsTo d x → LeadsTo d x.pickFirst

/-- The passes make up neither flags nor atoms. -/
theorem LeadsTo.isLegible {d x : Spec} (h : d.LeadsTo x) (hd : d.IsLegible) : x.IsLegible := by
  induction h with
  | refl => exact hd
  | @decideUse x flags _ ih =>
    have heq : (x.decideUse flags).children = x.children.map (Expr.decideUse flags) :=
      Expr.decideUseAll_eq_map flags x.children
    rw [IsLegible, heq]
    exact List.forall_mem_map.2 fun e he => (ih e he).decideUse flags
  | @simplify x _ ih =>
    have hgroup : x.asExpr.IsLegible := Expr.isLegible_group trivial rfl ih
    exact fun e => hgroup.simplify.of_mem_allOfChildren
  | withoutBlockers _ hy ih =>
    obtain ⟨out, hout, rfl⟩ := map_eq_ok_iff.1 hy
    exact Expr.isLegible_of_mem_dropTrue
      (Expr.isLegible_withoutBlockersAll ih (fun _ _ _ => Expr.IsLegible.withoutBlockers) hout)
  | filterFor name _ hy ih =>
    obtain ⟨out, hout, rfl⟩ := map_eq_ok_iff.1 hy
    exact Expr.isLegible_filterAllFor ih (fun _ _ _ => Expr.IsLegible.filterFor) hout
  | @pickFirst x _ ih =>
    have heq : x.pickFirst.children = x.children.map Expr.pickFirst :=
      Expr.pickFirstAll_eq_map x.children
    rw [IsLegible, heq]
    exact List.forall_mem_map.2 fun e he => (ih e he).pickFirst

end Spec
end Dependency
end EbuildGraph
