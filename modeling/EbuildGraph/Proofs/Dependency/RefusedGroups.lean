import EbuildGraph.Proofs.Dependency.Blockers

/-!
# Groups that must not lose a member

Below an exactly-one-of or at-most-one-of group a removed member would change what the group
asks for, so the removal of blockers refuses a group that would lose one.  A member is lost when
it becomes constantly true: when it is a blocked leaf, an all-of group of which nothing is left,
or an any-of group that lost a member.  An all-of group that keeps a member and a condition stay,
whatever was blocked in them.

Main definitions:

- {lit}`Expr.Vanishes`: whether the removal makes an expression the constant true.
- {lit}`Expr.IsRefused`: whether a group that counts its members would lose one.
- {lit}`Expr.CountsBlocker`: whether a leaf is blocked below a group that counts its members.

Main results:

- Theorem {lit}`Expr.eq_true_iff_vanishes`: what becomes the constant true.
- Theorem {lit}`Expr.withoutBlockers_eq_error_iff`: the removal fails exactly where a group is
  refused.
- Theorem {lit}`Spec.withoutBlockers_fails_iff`: the same for a value, with the failure told.
-/

namespace EbuildGraph
namespace Dependency
namespace Expr

/-! ## What vanishes -/

/-- Whether the removal makes an expression the constant true: a blocked leaf, an all-of group
of such members, or an any-of group with such a member. -/
inductive Vanishes : Expr → Prop where
  | allOf {es : List Expr} (h : ∀ e ∈ es, Vanishes e) : Vanishes (allOf es)
  | anyOf {es : List Expr} {e : Expr} (he : e ∈ es) (h : Vanishes e) : Vanishes (anyOf es)
  | package {atom : Atom} {blocking : Blocking} (h : blocking.isBlocked = true) :
      Vanishes (package atom blocking)

/-- An all-of group vanishes when all its members do. -/
theorem vanishes_allOf_iff {es : List Expr} : (allOf es).Vanishes ↔ ∀ e ∈ es, e.Vanishes :=
  ⟨fun | .allOf h => h, .allOf⟩

/-- An any-of group vanishes when one of its members does. -/
theorem vanishes_anyOf_iff {es : List Expr} : (anyOf es).Vanishes ↔ ∃ e ∈ es, e.Vanishes :=
  ⟨fun | .anyOf he h => ⟨_, he, h⟩, fun ⟨_, he, h⟩ => .anyOf he h⟩

/-- A leaf vanishes when it blocks. -/
theorem vanishes_package_iff {atom : Atom} {blocking : Blocking} :
    (package atom blocking).Vanishes ↔ blocking.isBlocked = true :=
  ⟨fun | .package h => h, .package⟩

/-- What is left of an all-of group is nothing when all its members became true. -/
theorem eq_true_iff_allOf_dropTrue {members : List Expr} :
    allOf (dropTrue members) = true_ ↔ ∀ e ∈ members, e = true_ := by
  simp [true_, dropTrue, isTrue_iff]

/-- What is left of an expression is the constant true exactly when the expression vanishes. -/
theorem eq_true_iff_vanishes {e x : Expr} (h : e.withoutBlockers = .ok x) :
    x = true_ ↔ e.Vanishes := by
  induction e generalizing x with
  | allOf es ih =>
    obtain ⟨out, hout, rfl⟩ := map_eq_ok_iff.1 h
    rw [eq_true_iff_allOf_dropTrue, vanishes_allOf_iff]
    constructor
    · intro hall c hc
      obtain ⟨y, hy, hcy⟩ := exists_mem_of_withoutBlockersAll hout hc
      exact (ih c hc hcy).1 (hall y hy)
    · intro hall y hy
      obtain ⟨c, hc, hcy⟩ := exists_of_mem_withoutBlockersAll hout hy
      exact (ih c hc hcy).2 (hall c hc)
  | anyOf es ih =>
    obtain ⟨out, hout, rfl⟩ := map_eq_ok_iff.1 h
    rw [vanishes_anyOf_iff]
    constructor
    · intro heq
      have htrue : true_ ∈ out := by
        by_contra hnone
        rw [ite_any_isTrue_of_not_mem hnone] at heq
        cases heq
      obtain ⟨c, hc, hcy⟩ := exists_of_mem_withoutBlockersAll hout htrue
      exact ⟨c, hc, (ih c hc hcy).1 rfl⟩
    · rintro ⟨c, hc, hvanishes⟩
      obtain ⟨y, hy, hcy⟩ := exists_mem_of_withoutBlockersAll hout hc
      exact ite_any_isTrue_of_mem ((ih c hc hcy).2 hvanishes ▸ hy)
  | exactlyOneOf es ih | atMostOneOf es ih =>
    -- What is left of these is a group of the same kind and no constant.
    obtain ⟨out, _, hkeep⟩ := bind_eq_ok_iff.1 h
    obtain ⟨_, rfl⟩ := keepWhole_eq_ok_iff.1 hkeep
    exact iff_of_false nofun nofun
  | useConditional flag expect es ih =>
    obtain ⟨out, _, rfl⟩ := map_eq_ok_iff.1 h
    exact iff_of_false nofun nofun
  | package atom blocking =>
    obtain rfl := Except.ok.inj h
    rw [vanishes_package_iff]
    cases blocking.isBlocked <;> simp [true_]

/-- Among expressions without their blockers is the true constant when one of them vanishes. -/
theorem true_mem_iff_exists_vanishes {es out : List Expr} (hout : withoutBlockersAll es = .ok out) :
    true_ ∈ out ↔ ∃ e ∈ es, e.Vanishes := by
  constructor
  · intro htrue
    obtain ⟨e, he, heq⟩ := exists_of_mem_withoutBlockersAll hout htrue
    exact ⟨e, he, (eq_true_iff_vanishes heq).1 rfl⟩
  · rintro ⟨e, he, hvanishes⟩
    obtain ⟨x, hx, heq⟩ := exists_mem_of_withoutBlockersAll hout he
    exact (eq_true_iff_vanishes heq).2 hvanishes ▸ hx

/-! ## What is refused -/

/-- Whether an expression is a group that counts its members. -/
def IsCounted (e : Expr) : Prop :=
  e.kind = .exactlyOneOf ∨ e.kind = .atMostOneOf

instance : DecidablePred IsCounted :=
  fun e => inferInstanceAs (Decidable (e.kind = .exactlyOneOf ∨ e.kind = .atMostOneOf))

/-- Whether an expression is a group that counts its members and would lose one. -/
def IsRefused (e : Expr) : Prop :=
  e.IsCounted ∧ ∃ c ∈ e.children, c.Vanishes

/-- Whether a leaf is blocked somewhere below a group that counts its members. -/
def CountsBlocker (e : Expr) : Prop :=
  ∃ g ∈ e.nodes, g.IsCounted ∧ ∃ leaf ∈ g.leaves, leaf.2.isBlocked = true

instance : DecidablePred CountsBlocker := fun e =>
  inferInstanceAs
    (Decidable (∃ g ∈ e.nodes, g.IsCounted ∧ ∃ leaf ∈ g.leaves, leaf.2.isBlocked = true))

/-- A removal that succeeds has met no group to refuse. -/
theorem not_isRefused_of_withoutBlockers {e x : Expr} (h : e.withoutBlockers = .ok x) :
    ∀ g ∈ e.nodes, ¬ g.IsRefused := by
  have hall : ∀ {es out : List Expr},
      (∀ e ∈ es, ∀ {x : Expr}, e.withoutBlockers = .ok x → ∀ g ∈ e.nodes, ¬ g.IsRefused) →
      withoutBlockersAll es = .ok out → ∀ c ∈ es, ∀ g ∈ c.nodes, ¬ g.IsRefused := by
    intro es out hes hout c hc
    obtain ⟨y, _, hcy⟩ := exists_mem_of_withoutBlockersAll hout hc
    exact hes c hc hcy
  induction e generalizing x with
  | allOf es ih | anyOf es ih | useConditional flag expect es ih =>
    obtain ⟨out, hout, _⟩ := map_eq_ok_iff.1 h
    refine forall_mem_nodes_iff.2 ⟨?_, hall ih hout⟩
    simp [IsRefused, IsCounted, kind]
  | exactlyOneOf es ih | atMostOneOf es ih =>
    obtain ⟨out, hout, hkeep⟩ := bind_eq_ok_iff.1 h
    refine forall_mem_nodes_iff.2 ⟨?_, hall ih hout⟩
    rintro ⟨_, hvanishes⟩
    exact (keepWhole_eq_ok_iff.1 hkeep).1 ((true_mem_iff_exists_vanishes hout).2 hvanishes)
  | package atom blocking =>
    refine forall_mem_nodes_iff.2 ⟨?_, fun c hc => absurd hc List.not_mem_nil⟩
    simp [IsRefused, IsCounted, kind]

/-- A removal that fails names the group that it refuses. -/
theorem exists_isRefused_of_eq_error {e : Expr} {err : Error}
    (h : e.withoutBlockers = .error err) :
    ∃ g ∈ e.nodes, g.IsRefused ∧ err = .ambiguousBlocks g.text := by
  have hbelow : ∀ {e : Expr} {es : List Expr}, e.children = es →
      (∀ c ∈ es, c.withoutBlockers = .error err →
        ∃ g ∈ c.nodes, g.IsRefused ∧ err = .ambiguousBlocks g.text) →
      withoutBlockersAll es = .error err →
      ∃ g ∈ e.nodes, g.IsRefused ∧ err = .ambiguousBlocks g.text := by
    rintro e es rfl hes herr
    obtain ⟨c, hc, hcerr⟩ := exists_of_withoutBlockersAll_eq_error herr
    obtain ⟨g, hg, hrefused⟩ := hes c hc hcerr
    exact ⟨g, mem_nodes_iff.2 (Or.inr ⟨c, hc, hg⟩), hrefused⟩
  induction e with
  | allOf es ih | anyOf es ih | useConditional flag expect es ih =>
    exact hbelow rfl ih (map_eq_error_iff.1 h)
  | exactlyOneOf es ih | atMostOneOf es ih =>
    -- A member fails on its own, or the group does because something true is left of one.
    rcases bind_eq_error_iff.1 h with herr | ⟨out, hout, hkeep⟩
    · exact hbelow rfl ih herr
    · have htrue : true_ ∈ out := by
        by_contra hnone
        rw [keepWhole_of_not_mem hnone] at hkeep
        cases hkeep
      rw [keepWhole_of_mem htrue] at hkeep
      refine ⟨_, mem_nodes_iff.2 (Or.inl rfl), ⟨?_, ?_⟩, (Except.error.inj hkeep).symm⟩
      · simp [IsCounted, kind]
      · exact (true_mem_iff_exists_vanishes hout).1 htrue
  | package atom blocking => cases h

/-- The removal fails exactly where a group that counts its members would lose one. -/
theorem withoutBlockers_eq_error_iff {e : Expr} :
    (∃ err, e.withoutBlockers = .error err) ↔ ∃ g ∈ e.nodes, g.IsRefused := by
  constructor
  · rintro ⟨err, herr⟩
    obtain ⟨g, hg, hrefused, _⟩ := exists_isRefused_of_eq_error herr
    exact ⟨g, hg, hrefused⟩
  · rintro ⟨g, hg, hrefused⟩
    cases hx : e.withoutBlockers with
    | error err => exact ⟨err, rfl⟩
    | ok x => exact absurd hrefused (not_isRefused_of_withoutBlockers hx g hg)

/-- A group of leaves that counts them would lose one exactly when one of them is blocked. -/
theorem isRefused_iff_of_leaves {g : Expr} (hcounted : g.IsCounted)
    (h : ∀ c ∈ g.children, c.kind = .package) :
    g.IsRefused ↔ ∃ leaf ∈ g.leaves, leaf.2.isBlocked = true := by
  have hkind : g.kind ≠ .package := by
    rcases hcounted with hkind | hkind <;> simp [hkind]
  rw [leaves_of_kind_ne hkind]
  constructor
  · rintro ⟨_, c, hc, _ | _ | hblocked⟩
    · cases h _ hc
    · cases h _ hc
    · exact ⟨_, mem_leavesOfAll_iff.2 ⟨_, hc, List.mem_cons_self⟩, hblocked⟩
  · rintro ⟨leaf, hleaf, hblocked⟩
    obtain ⟨c, hc, hleaf⟩ := mem_leavesOfAll_iff.1 hleaf
    refine ⟨hcounted, c, hc, ?_⟩
    cases c with
    | package atom blocking =>
      obtain rfl := List.mem_singleton.1 hleaf
      exact .package hblocked
    | _ => cases h _ hc

end Expr

namespace Spec

/-! ## Refused values -/

/-- The removal fails exactly when some group that counts its members has one that vanishes,
and it names such a group.  Where the members of these groups are leaves, it fails exactly when
one of the leaves is blocked. -/
theorem withoutBlockers_fails_iff (d : Spec) :
    (∀ err, d.withoutBlockers = .error err →
      ∃ g ∈ d.asExpr.nodes, g.IsRefused ∧ err = .ambiguousBlocks g.text) ∧
    ((∃ err, d.withoutBlockers = .error err) ↔ ∃ g ∈ d.asExpr.nodes, g.IsRefused) ∧
    ((∀ g ∈ d.asExpr.nodes, g.IsCounted → ∀ c ∈ g.children, c.kind = .package) →
      ((∃ err, d.withoutBlockers = .error err) ↔ d.asExpr.CountsBlocker)) := by
  have hfails : (∃ err, d.withoutBlockers = .error err) ↔ ∃ g ∈ d.asExpr.nodes, g.IsRefused := by
    simp only [withoutBlockers_eq_error_iff]
    exact Expr.withoutBlockers_eq_error_iff
  refine ⟨fun err herr => ?_, hfails, fun hleaves => hfails.trans ?_⟩
  · exact Expr.exists_isRefused_of_eq_error (withoutBlockers_eq_error_iff.1 herr)
  · refine exists_congr fun g => and_congr_right fun hg => ?_
    constructor
    · intro hrefused
      have hcounted := hrefused.1
      exact ⟨hcounted, (Expr.isRefused_iff_of_leaves hcounted (hleaves g hg hcounted)).1 hrefused⟩
    · rintro ⟨hcounted, hblocked⟩
      exact (Expr.isRefused_iff_of_leaves hcounted (hleaves g hg hcounted)).2 hblocked

/-- A choice of exactly one leaf, one of them blocked. -/
def sampleChoice : Spec :=
  ⟨[.exactlyOneOf [.package (.ofName "x/x") .weak, .package (.ofName "a/a") .none]]⟩

/-- The sample has leaves only in the group that counts its members, and is refused for its blocker
there. -/
theorem withoutBlockers_sampleChoice :
    (∀ g ∈ sampleChoice.asExpr.nodes, g.IsCounted → ∀ c ∈ g.children, c.kind = .package) ∧
      ((∃ err, sampleChoice.withoutBlockers = .error err) ↔ sampleChoice.asExpr.CountsBlocker) :=
  have hleaves : ∀ g ∈ sampleChoice.asExpr.nodes, g.IsCounted →
      ∀ c ∈ g.children, c.kind = .package := by decide
  ⟨hleaves, (withoutBlockers_fails_iff sampleChoice).2.2 hleaves⟩

/-- A choice of exactly one member, one of which forbids one package and wants another. -/
def sampleMixed : Spec :=
  ⟨[.exactlyOneOf
    [.allOf [.package (.ofName "x/x") .weak, .package (.ofName "a/a") .none],
      .package (.ofName "b/b") .none]]⟩

/-- A choice of exactly one member, one of which asks for nothing. -/
def sampleVoid : Spec :=
  ⟨[.exactlyOneOf [.allOf [], .package (.ofName "a/a") .none]]⟩

/-- The blocker in a group below the choice is removed, and a choice without any blocker is
refused. -/
theorem withoutBlockers_sampleMixed :
    (sampleMixed.asExpr.CountsBlocker ∧ ¬ ∃ err, sampleMixed.withoutBlockers = .error err) ∧
      ((∃ err, sampleVoid.withoutBlockers = .error err) ∧ ¬ sampleVoid.asExpr.CountsBlocker) := by
  refine ⟨⟨by decide, ?_⟩, ⟨_, rfl⟩, by decide⟩
  rintro ⟨err, herr⟩
  cases herr

end Spec
end Dependency
end EbuildGraph
