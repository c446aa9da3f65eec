import EbuildGraph.Dependency.Selection
import EbuildGraph.Proofs.Dependency.Commutation
import EbuildGraph.Proofs.Dependency.Meaning
import EbuildGraph.Proofs.Success

/-!
# Atoms of a value without choice

Taking the first alternative of every any-of group is sound where groups only ask for
more when their members do.  Below exactly-one-of and at-most-one-of groups it is not,
but no such group goes unnoticed: in a normal form it has two members that are not
false, taking first alternatives leaves them so, and a group of two members is a choice.

Main results:

- Theorem {lit}`Expr.reflectsConstants_pickFirst`: taking first alternatives makes no
  constants of normal forms without conditions.
- Theorem {lit}`Expr.holds_of_granted`: a normal form without conditions holds when all
  atoms of its first alternatives do.
- Theorem {lit}`Spec.holds_of_decidedAtoms`: the same for a value that is simplified, cut
  down to first alternatives and simplified again.
-/

namespace EbuildGraph
namespace Dependency
namespace Expr

/-! ## Expressions whose atoms are all true -/

/-- The expression leaves no choice, and all its atoms are true. -/
def Granted (assign : Atom → Bool) (e : Expr) : Prop :=
  ∃ atoms, e.decidedAtoms = .ok atoms ∧ ∀ atom ∈ atoms, assign atom = true

/-- A leaf counts as true when it is blocked and else as its atom. -/
def leafHolds (assign : Atom → Bool) (atom : Atom) (blocking : Blocking) : Bool :=
  blocking.isBlocked || assign atom

variable {assign : Atom → Bool}

/-- All atoms of a list are true exactly when those of each member are. -/
theorem forall_granted_iff {es : List Expr} :
    (∃ atoms, decidedAtomsAll es = .ok atoms ∧ ∀ atom ∈ atoms, assign atom = true) ↔
      ∀ e ∈ es, e.Granted assign := by
  induction es with
  | nil => simp [decidedAtomsAll]
  | cons e rest ih =>
    rw [List.forall_mem_cons, ← ih]
    constructor
    · rintro ⟨atoms, hatoms, htrue⟩
      rw [decidedAtomsAll] at hatoms
      split at hatoms
      · cases hatoms
      · next first hfirst =>
        obtain ⟨others, hothers, rfl⟩ := map_eq_ok_iff.1 hatoms
        obtain ⟨htrueFirst, htrueOthers⟩ := List.forall_mem_append.1 htrue
        exact ⟨⟨first, hfirst, htrueFirst⟩, ⟨others, hothers, htrueOthers⟩⟩
    · rintro ⟨⟨first, hfirst, htrueFirst⟩, ⟨others, hothers, htrueOthers⟩⟩
      refine ⟨first ++ others, ?_, List.forall_mem_append.2 ⟨htrueFirst, htrueOthers⟩⟩
      simp [decidedAtomsAll, hfirst, hothers, Except.map]

/-- An all-of group is granted when all its members are. -/
theorem granted_allOf_iff {es : List Expr} :
    (allOf es).Granted assign ↔ ∀ e ∈ es, e.Granted assign :=
  forall_granted_iff

/-- An expression is granted when all is that it asks for side by side. -/
theorem granted_iff_forall_allOfChildren {e : Expr} :
    e.Granted assign ↔ ∀ c ∈ e.allOfChildren, c.Granted assign := by
  cases e with
  | allOf es => exact granted_allOf_iff
  | _ => simp [allOfChildren]

/-- When a folded all-of group is granted and none of its members is false, all of them are granted.
-/
theorem granted_foldAllOf {members : List Expr} (hfalse : false_ ∉ members)
    (h : (foldAllOf members).Granted assign) : ∀ m ∈ members, m.Granted assign := by
  have hopen : ∀ c ∈ openGroups members, c.Granted assign := by
    rw [foldAllOf_of_not_mem hfalse] at h
    rcases unwrapSingleton_cases allOf (openGroups members) with ⟨e, hone, heq⟩ | ⟨_, heq⟩
    · rw [heq] at h
      simpa [hone] using h
    · rw [heq] at h
      exact granted_allOf_iff.1 h
  intro m hm
  apply granted_iff_forall_allOfChildren.2
  intro c hc
  exact hopen c (mem_openGroups_iff.2 ⟨m, hm, hc⟩)

/-- A group of two members or more of which exactly one is to hold grants nothing. -/
theorem not_granted_exactlyOneOf {es : List Expr} (h : 2 ≤ es.length) :
    ¬(exactlyOneOf es).Granted assign := by
  rintro ⟨atoms, hatoms, _⟩
  have hne : es.length ≠ 1 := by omega
  simp [decidedAtoms, hne] at hatoms

/-- A group of two members or more of which at most one is to hold grants nothing. -/
theorem not_granted_atMostOneOf {es : List Expr} (h : 2 ≤ es.length) :
    ¬(atMostOneOf es).Granted assign := by
  rintro ⟨atoms, hatoms, _⟩
  have hne : es ≠ [] := by
    rintro rfl
    simp at h
  simp [decidedAtoms, hne] at hatoms

/-- The leaf that is granted holds. -/
theorem Granted.leafHolds {atom : Atom} {blocking : Blocking}
    (h : (package atom blocking).Granted assign) : leafHolds assign atom blocking = true := by
  obtain ⟨atoms, hatoms, htrue⟩ := h
  rw [decidedAtoms, Except.ok.injEq] at hatoms
  by_cases hblocked : blocking.isBlocked = true
  · simp [Expr.leafHolds, hblocked]
  · have hmem : atom ∈ atoms := by simp [← hatoms, hblocked]
    simp [Expr.leafHolds, htrue atom hmem]

/-! ## First alternatives of normal forms -/

theorem pickFirst_allOf (es : List Expr) : pickFirst (allOf es) = allOf (es.map pickFirst) := by
  rw [pickFirst, pickFirstAll_eq_map]

/-- Of an any-of group the first alternative is taken, simplified. -/
theorem thenSimplify_pickFirst_anyOf_cons (e : Expr) (rest : List Expr) :
    thenSimplify pickFirst (anyOf (e :: rest)) = thenSimplify pickFirst e := by
  rw [thenSimplify, pickFirst, pickFirstAll_eq_map]
  rfl

theorem thenSimplify_pickFirst_exactlyOneOf (es : List Expr) :
    thenSimplify pickFirst (exactlyOneOf es) =
      foldExactlyOneOf (es.map (thenSimplify pickFirst)) := by
  rw [thenSimplify, pickFirst, pickFirstAll_eq_map, simplify_exactlyOneOf, List.map_map]
  rfl

theorem thenSimplify_pickFirst_atMostOneOf (es : List Expr) :
    thenSimplify pickFirst (atMostOneOf es) =
      foldAtMostOneOf (es.map (thenSimplify pickFirst)) := by
  rw [thenSimplify, pickFirst, pickFirstAll_eq_map, simplify_atMostOneOf, List.map_map]
  rfl

/-- Opening members that are not true makes no fewer of them. -/
theorem length_le_openGroups {members : List Expr} (h : true_ ∉ members) :
    members.length ≤ (openGroups members).length := by
  induction members with
  | nil => exact Nat.le_refl 0
  | cons m rest ih =>
    have hm : m ≠ true_ := fun heq => h (heq ▸ List.mem_cons_self)
    have hrest : true_ ∉ rest := fun hmem => h (List.mem_cons_of_mem m hmem)
    have hlength : 1 ≤ m.allOfChildren.length := by
      rcases m with (_ | ⟨e, es⟩) | _ | _ | _ | _ | _
      · exact absurd rfl hm
      all_goals simp [allOfChildren]
    have hopen : openGroups (m :: rest) = m.allOfChildren ++ openGroups rest := rfl
    have hle := ih hrest
    rw [hopen, List.length_append, List.length_cons]
    omega

/-- An all-of group of two members stays a group unless one of them is a constant. -/
theorem foldAllOf_ne_constant {members : List Expr} (htwo : 2 ≤ members.length)
    (htrue : true_ ∉ members) (hfalse : false_ ∉ members) :
    foldAllOf members ≠ true_ ∧ foldAllOf members ≠ false_ := by
  have hopen : 2 ≤ (openGroups members).length :=
    Nat.le_trans htwo (length_le_openGroups htrue)
  rw [foldAllOf_of_not_mem hfalse, unwrapSingleton_of_two allOf hopen]
  refine ⟨?_, by simp [false_]⟩
  intro heq
  rw [allOf.inj heq] at hopen
  simp at hopen

/-- The pass makes a constant of the expression only where it is that constant. -/
def ReflectsConstants (pass : Expr → Expr) (e : Expr) : Prop :=
  (pass e = true_ → e = true_) ∧ (pass e = false_ → e = false_)

/-- A pass that makes a certain expression of itself only brings it into no list that lacks it. -/
theorem not_mem_map_of_reflects {pass : Expr → Expr} {es : List Expr} {c : Expr}
    (hpass : ∀ e ∈ es, pass e = c → e = c) (h : c ∉ es) : c ∉ es.map pass := by
  intro hmem
  obtain ⟨e, he, heq⟩ := List.mem_map.1 hmem
  exact h (hpass e he heq ▸ he)

/-- A pass that makes no constants keeps what a group that counts its members needs to
survive: two members that are not false, and not two that are true. -/
theorem counted_map {pass : Expr → Expr} {es : List Expr}
    (hpass : ∀ e ∈ es, ReflectsConstants pass e)
    (h : 2 ≤ es.length ∧ false_ ∉ es ∧ es.count true_ ≤ 1) :
    (es.map pass).count true_ ≤ 1 ∧ 2 ≤ (dropFalse (es.map pass)).length := by
  obtain ⟨htwo, hfalse, htrues⟩ := h
  have hcount : (es.map pass).count true_ ≤ es.count true_ := by
    rw [List.count, List.countP_map]
    apply List.countP_mono_left
    intro e he htrue
    exact beq_iff_eq.2 ((hpass e he).1 (eq_of_beq htrue))
  have hnone : false_ ∉ es.map pass :=
    not_mem_map_of_reflects (fun e he => (hpass e he).2) hfalse
  rw [dropFalse_eq_self hnone, List.length_map]
  omega

/-- Taking first alternatives and simplifying makes no constants of normal forms without
conditions. -/
theorem reflectsConstants_pickFirst {e : Expr} (h : e.IsNormal)
    (hdecided : e.Avoids .useConditional) : ReflectsConstants (thenSimplify pickFirst) e := by
  induction e with
  | allOf es ih =>
    obtain ⟨rfl | ⟨htwo, hfalse, hkinds⟩, hchildren⟩ := isNormal_allOf_iff.1 h
    · exact ⟨fun _ => rfl, fun heq => absurd heq true_ne_false⟩
    · have hreflects : ∀ e ∈ es, ReflectsConstants (thenSimplify pickFirst) e :=
        fun e he => ih e he (hchildren e he) (hdecided.child he)
      have htrue : true_ ∉ es := fun hmem => hkinds true_ hmem rfl
      have hlength : 2 ≤ (es.map (thenSimplify pickFirst)).length := by
        rw [List.length_map]
        exact htwo
      have hgroup := foldAllOf_ne_constant hlength
        (not_mem_map_of_reflects (fun e he => (hreflects e he).1) htrue)
        (not_mem_map_of_reflects (fun e he => (hreflects e he).2) hfalse)
      rw [ReflectsConstants, thenSimplify_allOf pickFirst_allOf]
      exact ⟨fun heq => absurd heq hgroup.1, fun heq => absurd heq hgroup.2⟩
  | anyOf es ih =>
    obtain ⟨rfl | ⟨_, htrue, hfalse⟩, hchildren⟩ := isNormal_anyOf_iff.1 h
    · exact ⟨fun heq => absurd heq false_ne_true, fun _ => rfl⟩
    · rcases es with _ | ⟨e, rest⟩
      · exact ⟨fun heq => absurd heq false_ne_true, fun _ => rfl⟩
      · have he : e ∈ e :: rest := List.mem_cons_self
        obtain ⟨hfirstTrue, hfirstFalse⟩ := ih e he (hchildren e he) (hdecided.child he)
        rw [ReflectsConstants, thenSimplify_pickFirst_anyOf_cons]
        constructor
        · intro heq
          exact absurd (hfirstTrue heq ▸ he) htrue
        · intro heq
          exact absurd (hfirstFalse heq ▸ he) hfalse
  | exactlyOneOf es ih =>
    -- The members stay apart from the constants, so the group survives as one.
    obtain ⟨hreduced, hchildren⟩ := isNormal_exactlyOneOf_iff.1 h
    have hkept := counted_map (fun e he => ih e he (hchildren e he) (hdecided.child he)) hreduced
    rw [ReflectsConstants, thenSimplify_pickFirst_exactlyOneOf,
      foldExactlyOneOf_of_many hkept.1 hkept.2]
    simp [true_, false_]
  | atMostOneOf es ih =>
    obtain ⟨hreduced, hchildren⟩ := isNormal_atMostOneOf_iff.1 h
    have hkept := counted_map (fun e he => ih e he (hchildren e he) (hdecided.child he)) hreduced
    rw [ReflectsConstants, thenSimplify_pickFirst_atMostOneOf,
      foldAtMostOneOf_of_many hkept.1 hkept.2]
    simp [true_, false_]
  | useConditional flag expect es ih => exact absurd rfl hdecided.kind_ne
  | package atom blocking =>
    simp [ReflectsConstants, thenSimplify, pickFirst, simplify, true_, false_]

/-- Groups that count their members survive first alternatives. -/
theorem counted_map_pickFirst {es : List Expr} (hchildren : ∀ e ∈ es, e.IsNormal)
    (hdecided : ∀ e ∈ es, e.Avoids .useConditional)
    (h : 2 ≤ es.length ∧ false_ ∉ es ∧ es.count true_ ≤ 1) :
    (es.map (thenSimplify pickFirst)).count true_ ≤ 1 ∧
      2 ≤ (dropFalse (es.map (thenSimplify pickFirst))).length := by
  apply counted_map _ h
  intro e he
  exact reflectsConstants_pickFirst (hchildren e he) (hdecided e he)

/-! ## Soundness of first alternatives -/

/-- A normal form without conditions holds when all atoms of its first alternatives are
true.  A group that counts its members survives and is refused as a choice. -/
theorem holds_of_granted {e : Expr} (h : e.IsNormal) (hdecided : e.Avoids .useConditional)
    (hfalse : e ≠ false_) (hgranted : (thenSimplify pickFirst e).Granted assign)
    (flags : NameSet) : e.holds (leafHolds assign) flags = true := by
  induction e with
  | allOf es ih =>
    obtain ⟨hreduced, hchildren⟩ := isNormal_allOf_iff.1 h
    have hnone : false_ ∉ es := by
      rcases hreduced with rfl | ⟨_, hnone, _⟩
      · exact List.not_mem_nil
      · exact hnone
    have hnoFalse : false_ ∉ es.map (thenSimplify pickFirst) := by
      refine not_mem_map_of_reflects ?_ hnone
      intro e he
      exact (reflectsConstants_pickFirst (hchildren e he) (hdecided.child he)).2
    rw [thenSimplify_allOf pickFirst_allOf] at hgranted
    have hmembers := List.forall_mem_map.1 (granted_foldAllOf hnoFalse hgranted)
    apply holds_allOf_iff.2
    intro e he
    have hne : e ≠ false_ := fun heq => hnone (heq ▸ he)
    exact ih e he (hchildren e he) (hdecided.child he) hne (hmembers e he)
  | anyOf es ih =>
    -- One member is enough, and the first one is not false.
    obtain ⟨rfl | ⟨_, _, hnone⟩, hchildren⟩ := isNormal_anyOf_iff.1 h
    · exact absurd rfl hfalse
    · rcases es with _ | ⟨e, rest⟩
      · exact absurd rfl hfalse
      · have he : e ∈ e :: rest := List.mem_cons_self
        have hne : e ≠ false_ := fun heq => hnone (heq ▸ he)
        rw [thenSimplify_pickFirst_anyOf_cons] at hgranted
        exact holds_anyOf_iff.2
          ⟨e, he, ih e he (hchildren e he) (hdecided.child he) hne hgranted⟩
  | exactlyOneOf es ih =>
    obtain ⟨hreduced, hchildren⟩ := isNormal_exactlyOneOf_iff.1 h
    obtain ⟨htrues, htwo⟩ :=
      counted_map_pickFirst hchildren (fun e he => hdecided.child he) hreduced
    rw [thenSimplify_pickFirst_exactlyOneOf, foldExactlyOneOf_of_many htrues htwo] at hgranted
    exact absurd hgranted (not_granted_exactlyOneOf htwo)
  | atMostOneOf es ih =>
    obtain ⟨hreduced, hchildren⟩ := isNormal_atMostOneOf_iff.1 h
    obtain ⟨htrues, htwo⟩ :=
      counted_map_pickFirst hchildren (fun e he => hdecided.child he) hreduced
    rw [thenSimplify_pickFirst_atMostOneOf, foldAtMostOneOf_of_many htrues htwo] at hgranted
    exact absurd hgranted (not_granted_atMostOneOf htwo)
  | useConditional flag expect es ih => exact absurd rfl hdecided.kind_ne
  | package atom blocking =>
    rw [holds]
    exact Granted.leafHolds hgranted

end Expr

/-! ## Values -/

/-- Simplifying, taking first alternatives and simplifying again is doing so with the
value as one expression. -/
theorem Spec.simplify_pickFirst_simplify (d : Spec) :
    d.simplify.pickFirst.simplify =
      .ofExpr (Expr.thenSimplify Expr.pickFirst d.asExpr.simplify) := by
  rw [Spec.pickFirst, Expr.pickFirstAll_eq_map]
  exact Spec.simplify_map_allOfChildren Expr.pickFirst_allOf d.asExpr.simplify

/-- A value without conditions that is simplified, cut down to first alternatives and
simplified again holds when all its atoms are true, unless it is false. -/
theorem Spec.holds_of_decidedAtoms {d : Spec} (hdecided : d.asExpr.Avoids .useConditional)
    (hfalse : d.simplify.pickFirst.simplify.children.any Expr.isFalse = false)
    {atoms : List Atom} (hatoms : d.simplify.pickFirst.simplify.decidedAtoms = .ok atoms)
    {assign : Atom → Bool} (hassign : ∀ atom ∈ atoms, assign atom = true) (flags : NameSet) :
    d.asExpr.holds (Expr.leafHolds assign) flags = true := by
  rw [Spec.simplify_pickFirst_simplify] at hfalse hatoms
  have hgranted : (Expr.thenSimplify Expr.pickFirst d.asExpr.simplify).Granted assign :=
    Expr.granted_iff_forall_allOfChildren.2 (Expr.forall_granted_iff.1 ⟨atoms, hatoms, hassign⟩)
  have hne : d.asExpr.simplify ≠ Expr.false_ := by
    intro heq
    rw [heq] at hfalse
    exact absurd hfalse (by decide)
  have hnormal := Expr.isNormal_simplify d.asExpr
  have havoids := Expr.avoids_simplify (by decide) (by decide) hdecided
  rw [← Expr.holds_simplify]
  exact Expr.holds_of_granted hnormal havoids hne hgranted flags

end Dependency
end EbuildGraph
