import EbuildGraph.Dependency.Simplify
import EbuildGraph.Proofs.Dependency.Nodes

/-!
# Folding groups

Simplifying an expression folds one group at a time, from the leaves up.  This module
says what each fold returns in each of its cases, so that later proofs need not look
into the folds again.

Main results:

- Theorems {lit}`foldAllOf_of_not_mem`, {lit}`foldAnyOf_of_not_mem`,
  {lit}`foldExactlyOneOf_of_many` and {lit}`foldAtMostOneOf_of_many`: when a group survives.
- Theorems {lit}`foldAnyOf_singleton` and {lit}`foldExactlyOneOf_singleton`: a group of one
  member is that member.
- Theorem {lit}`dropFalse_map_dropFalse`: members that are false may be dropped before
  or after a pass over the members.
- Theorem {lit}`avoids_simplify`: simplification adds no kind of node but the constants'.
-/

namespace EbuildGraph
namespace Dependency
namespace Expr

/-! ## Members that are false -/

/-- What is left of members is all of them but the false constant. -/
theorem mem_dropFalse_iff {e : Expr} {members : List Expr} :
    e ∈ dropFalse members ↔ e ∈ members ∧ e ≠ false_ := by
  simp [dropFalse, List.mem_filter, ← Bool.not_eq_true, isFalse_iff]

theorem false_not_mem_dropFalse (members : List Expr) : false_ ∉ dropFalse members :=
  fun h => (mem_dropFalse_iff.1 h).2 rfl

/-- Members without the false constant stay as they are. -/
theorem dropFalse_eq_self {members : List Expr} (h : false_ ∉ members) :
    dropFalse members = members := by
  apply List.filter_eq_self.2
  intro e he
  have hne : e ≠ false_ := fun heq => h (heq ▸ he)
  simpa [← Bool.not_eq_true, isFalse_iff] using hne

@[simp] theorem dropFalse_dropFalse (members : List Expr) :
    dropFalse (dropFalse members) = dropFalse members :=
  dropFalse_eq_self (false_not_mem_dropFalse members)

@[simp] theorem dropFalse_nil : dropFalse [] = [] := rfl

theorem dropFalse_cons_false (members : List Expr) :
    dropFalse (false_ :: members) = dropFalse members := rfl

theorem dropFalse_cons_of_ne {e : Expr} (members : List Expr) (h : e ≠ false_) :
    dropFalse (e :: members) = e :: dropFalse members := by
  have hfalse : e.isFalse = false := by
    simpa [← Bool.not_eq_true, isFalse_iff] using h
  simp [dropFalse, hfalse]

/-- There are not more members without the false constant. -/
theorem length_dropFalse_le (members : List Expr) :
    (dropFalse members).length ≤ members.length :=
  List.length_filter_le _ _

/-- A pass that keeps the constant false may run before or after the members that are
false are dropped. -/
theorem dropFalse_map_dropFalse {pass : Expr → Expr} (hpass : pass false_ = false_)
    (members : List Expr) :
    dropFalse ((dropFalse members).map pass) = dropFalse (members.map pass) := by
  induction members with
  | nil => rfl
  | cons e rest ih =>
    by_cases he : e = false_
    · rw [he, dropFalse_cons_false, List.map_cons, hpass, dropFalse_cons_false, ih]
    · rw [dropFalse_cons_of_ne rest he, List.map_cons, List.map_cons]
      by_cases hfold : pass e = false_
      · rw [hfold, dropFalse_cons_false, dropFalse_cons_false, ih]
      · rw [dropFalse_cons_of_ne _ hfold, dropFalse_cons_of_ne _ hfold, ih]

/-! ## Members that are true -/

/-- Members that are true are the true constant. -/
theorem countP_isTrue (members : List Expr) :
    members.countP isTrue = members.count true_ := by
  apply List.countP_congr
  intro e _
  rw [isTrue_iff, beq_iff_eq]

/-- Without the false constant as many members are true. -/
theorem count_true_dropFalse (members : List Expr) :
    (dropFalse members).count true_ = members.count true_ := by
  apply List.count_filter
  rfl

/-! ## Opened groups -/

/-- Opened groups have the members of all-of groups, and all other members themselves. -/
theorem mem_openGroups_iff {e : Expr} {members : List Expr} :
    e ∈ openGroups members ↔ ∃ m ∈ members, e ∈ m.allOfChildren :=
  List.mem_flatMap

/-- An expression that is no all-of group asks for itself only. -/
theorem allOfChildren_of_kind_ne {e : Expr} (h : e.kind ≠ .allOf) : e.allOfChildren = [e] := by
  cases e with
  | allOf children => exact absurd rfl h
  | _ => rfl

/-- Members that are no all-of groups stay as they are. -/
theorem openGroups_eq_self {members : List Expr} (h : ∀ m ∈ members, m.kind ≠ .allOf) :
    openGroups members = members := by
  induction members with
  | nil => rfl
  | cons e rest ih =>
    obtain ⟨he, hrest⟩ := List.forall_mem_cons.1 h
    rw [openGroups, List.flatMap_cons, allOfChildren_of_kind_ne he, ← openGroups, ih hrest]
    rfl

/-! ## Groups of one member -/

@[simp] theorem unwrapSingleton_singleton (group : List Expr → Expr) (e : Expr) :
    unwrapSingleton group [e] = e := rfl

/-- A group of two members or more stays a group. -/
theorem unwrapSingleton_of_two (group : List Expr → Expr) {members : List Expr}
    (h : 2 ≤ members.length) : unwrapSingleton group members = group members := by
  rcases members with _ | ⟨e, _ | ⟨e', rest⟩⟩
  · rfl
  · exact absurd h (by simp)
  · rfl

/-- A group either gives way to its only member or is kept, and then it is empty or has
two members at least. -/
theorem unwrapSingleton_cases (group : List Expr → Expr) (members : List Expr) :
    (∃ e, members = [e] ∧ unwrapSingleton group members = e) ∨
      (members = [] ∨ 2 ≤ members.length) ∧ unwrapSingleton group members = group members := by
  rcases members with _ | ⟨e, _ | ⟨e', rest⟩⟩
  · exact Or.inr ⟨Or.inl rfl, rfl⟩
  · exact Or.inl ⟨e, rfl, rfl⟩
  · exact Or.inr ⟨Or.inr (by simp), rfl⟩

/-! ## Cases of the folds -/

/-- An all-of group with a false member is false. -/
theorem foldAllOf_of_mem {members : List Expr} (h : false_ ∈ members) :
    foldAllOf members = false_ := by
  have hany : members.any isFalse = true := List.any_eq_true.2 ⟨false_, h, rfl⟩
  simp [foldAllOf, hany]

/-- An all-of group without a false member takes in the all-of groups in it. -/
theorem foldAllOf_of_not_mem {members : List Expr} (h : false_ ∉ members) :
    foldAllOf members = unwrapSingleton allOf (openGroups members) := by
  have hany : members.any isFalse = false := by
    rw [List.any_eq_false]
    intro e he hfalse
    exact h (isFalse_iff.1 hfalse ▸ he)
  simp [foldAllOf, hany]

/-- An any-of group with a true member is true. -/
theorem foldAnyOf_of_mem {members : List Expr} (h : true_ ∈ members) :
    foldAnyOf members = true_ := by
  have hany : members.any isTrue = true := List.any_eq_true.2 ⟨true_, h, rfl⟩
  simp [foldAnyOf, hany]

/-- An any-of group without a true member loses its false ones. -/
theorem foldAnyOf_of_not_mem {members : List Expr} (h : true_ ∉ members) :
    foldAnyOf members = unwrapSingleton anyOf (dropFalse members) := by
  have hany : members.any isTrue = false := by
    rw [List.any_eq_false]
    intro e he htrue
    exact h (isTrue_iff.1 htrue ▸ he)
  simp [foldAnyOf, hany]

/-- Of an exactly-one-of group two members must not be true. -/
theorem foldExactlyOneOf_of_two {members : List Expr} (h : 2 ≤ members.count true_) :
    foldExactlyOneOf members = false_ := by
  have htrues : 2 ≤ (dropFalse members).countP isTrue := by
    rwa [countP_isTrue, count_true_dropFalse]
  simp [foldExactlyOneOf, htrues]

/-- An exactly-one-of group needs a member that may hold. -/
theorem foldExactlyOneOf_of_nil {members : List Expr} (h : dropFalse members = []) :
    foldExactlyOneOf members = false_ := by
  simp [foldExactlyOneOf, h]

/-- An exactly-one-of group with one member that may hold is that member. -/
theorem foldExactlyOneOf_of_one {members : List Expr} {e : Expr} (h : dropFalse members = [e]) :
    foldExactlyOneOf members = e := by
  by_cases he : e = true_
  · simp [foldExactlyOneOf, h, he, isTrue_iff]
  · simp [foldExactlyOneOf, h, he, isTrue_iff]

/-- An exactly-one-of group with several members that may hold loses its false ones. -/
theorem foldExactlyOneOf_of_many {members : List Expr} (htrues : members.count true_ ≤ 1)
    (h : 2 ≤ (dropFalse members).length) :
    foldExactlyOneOf members = exactlyOneOf (dropFalse members) := by
  have hcount : ¬2 ≤ (dropFalse members).countP isTrue := by
    rw [countP_isTrue, count_true_dropFalse]
    omega
  unfold foldExactlyOneOf
  simp only [hcount, if_false]
  split
  · next hnil => simp [hnil] at h
  · next e hone => simp [hone] at h
  · rfl

/-- Of an at-most-one-of group two members must not be true. -/
theorem foldAtMostOneOf_of_two {members : List Expr} (h : 2 ≤ members.count true_) :
    foldAtMostOneOf members = false_ := by
  have htrues : 2 ≤ (dropFalse members).countP isTrue := by
    rwa [countP_isTrue, count_true_dropFalse]
  simp [foldAtMostOneOf, htrues]

/-- An at-most-one-of group with one member that may hold, or none, is true. -/
theorem foldAtMostOneOf_of_few {members : List Expr} (h : (dropFalse members).length ≤ 1) :
    foldAtMostOneOf members = true_ := by
  have hcount : ¬2 ≤ (dropFalse members).countP isTrue := by
    have hle := List.countP_le_length (p := isTrue) (l := dropFalse members)
    omega
  simp [foldAtMostOneOf, hcount, h]

/-- An at-most-one-of group with several members that may hold loses its false ones. -/
theorem foldAtMostOneOf_of_many {members : List Expr} (htrues : members.count true_ ≤ 1)
    (h : 2 ≤ (dropFalse members).length) :
    foldAtMostOneOf members = atMostOneOf (dropFalse members) := by
  have hcount : ¬2 ≤ (dropFalse members).countP isTrue := by
    rw [countP_isTrue, count_true_dropFalse]
    omega
  have hlength : ¬(dropFalse members).length ≤ 1 := by omega
  simp [foldAtMostOneOf, hcount, hlength]

/-- What asks for nothing asks for nothing under a condition. -/
theorem foldConditional_of_true {flag : String} {expect : Bool} {members : List Expr}
    (h : foldAllOf members = true_) : foldConditional flag expect members = true_ := by
  simp [foldConditional, h, isTrue, true_]

/-- A condition stays around what is asked for side by side. -/
theorem foldConditional_of_ne_true {flag : String} {expect : Bool} {members : List Expr}
    (h : foldAllOf members ≠ true_) :
    foldConditional flag expect members =
      useConditional flag expect (foldAllOf members).allOfChildren := by
  simp [foldConditional, isTrue_iff, h]

/-! ## Folds of what is not false -/

theorem true_mem_dropFalse_iff {members : List Expr} :
    true_ ∈ dropFalse members ↔ true_ ∈ members := by
  simp [mem_dropFalse_iff]

/-- False members do not count for what an any-of group folds to. -/
theorem foldAnyOf_dropFalse (members : List Expr) :
    foldAnyOf (dropFalse members) = foldAnyOf members := by
  by_cases htrue : true_ ∈ members
  · rw [foldAnyOf_of_mem htrue, foldAnyOf_of_mem (true_mem_dropFalse_iff.2 htrue)]
  · rw [foldAnyOf_of_not_mem htrue, foldAnyOf_of_not_mem (mt true_mem_dropFalse_iff.1 htrue),
      dropFalse_dropFalse]

/-- False members do not count for what an exactly-one-of group folds to. -/
theorem foldExactlyOneOf_dropFalse (members : List Expr) :
    foldExactlyOneOf (dropFalse members) = foldExactlyOneOf members := by
  unfold foldExactlyOneOf
  rw [dropFalse_dropFalse]

/-- False members do not count for what an at-most-one-of group folds to. -/
theorem foldAtMostOneOf_dropFalse (members : List Expr) :
    foldAtMostOneOf (dropFalse members) = foldAtMostOneOf members := by
  unfold foldAtMostOneOf
  rw [dropFalse_dropFalse]

/-- A choice of one is that one. -/
theorem foldAnyOf_singleton (e : Expr) : foldAnyOf [e] = e := by
  by_cases htrue : e = true_
  · rw [htrue]
    rfl
  · rw [foldAnyOf_of_not_mem (by simpa using Ne.symm htrue)]
    by_cases hfalse : e = false_
    · rw [hfalse]
      rfl
    · rw [dropFalse_cons_of_ne [] hfalse, dropFalse_nil, unwrapSingleton_singleton]

/-- Exactly one of one expression is that one. -/
theorem foldExactlyOneOf_singleton (e : Expr) : foldExactlyOneOf [e] = e := by
  by_cases hfalse : e = false_
  · rw [hfalse]
    rfl
  · exact foldExactlyOneOf_of_one (dropFalse_cons_of_ne [] hfalse)

/-! ## Simplifying one constructor -/

/-- An all-of group is folded from its simplified members. -/
theorem simplify_allOf (children : List Expr) :
    simplify (allOf children) = foldAllOf (children.map simplify) := by
  rw [simplify, simplifyAll_eq_map]

/-- An any-of group is folded from its simplified members. -/
theorem simplify_anyOf (children : List Expr) :
    simplify (anyOf children) = foldAnyOf (children.map simplify) := by
  rw [simplify, simplifyAll_eq_map]

/-- An exactly-one-of group is folded from its simplified members. -/
theorem simplify_exactlyOneOf (children : List Expr) :
    simplify (exactlyOneOf children) = foldExactlyOneOf (children.map simplify) := by
  rw [simplify, simplifyAll_eq_map]

/-- An at-most-one-of group is folded from its simplified members. -/
theorem simplify_atMostOneOf (children : List Expr) :
    simplify (atMostOneOf children) = foldAtMostOneOf (children.map simplify) := by
  rw [simplify, simplifyAll_eq_map]

/-- A conditional group is folded from its simplified members. -/
theorem simplify_useConditional (flag : String) (expect : Bool) (children : List Expr) :
    simplify (useConditional flag expect children) =
      foldConditional flag expect (children.map simplify) := by
  rw [simplify, simplifyAll_eq_map]

@[simp] theorem simplify_true : simplify true_ = true_ := rfl

/-! ## Kinds of simplified expressions -/

section Avoids

variable {k : Kind}

theorem avoids_true (hall : k ≠ .allOf) : true_.Avoids k :=
  avoids_iff.2 ⟨hall.symm, by simp [true_, children]⟩

theorem avoids_false (hany : k ≠ .anyOf) : false_.Avoids k :=
  avoids_iff.2 ⟨hany.symm, by simp [false_, children]⟩

/-- What an expression asks for side by side has no groups of a kind that it lacks. -/
theorem Avoids.of_mem_allOfChildren {e c : Expr} (h : e.Avoids k) (hc : c ∈ e.allOfChildren) :
    c.Avoids k := by
  cases e with
  | allOf es => exact h.child hc
  | _ => exact List.mem_singleton.1 hc ▸ h

/-- Folding an all-of group brings in no kind of group but all-of and any-of. -/
theorem avoids_foldAllOf (hall : k ≠ .allOf) (hany : k ≠ .anyOf) {members : List Expr}
    (h : ∀ m ∈ members, m.Avoids k) : (foldAllOf members).Avoids k := by
  by_cases hfalse : false_ ∈ members
  · rw [foldAllOf_of_mem hfalse]
    exact avoids_false hany
  · have hopen : ∀ c ∈ openGroups members, c.Avoids k := by
      intro c hc
      obtain ⟨m, hm, hcm⟩ := mem_openGroups_iff.1 hc
      exact (h m hm).of_mem_allOfChildren hcm
    rw [foldAllOf_of_not_mem hfalse]
    rcases unwrapSingleton_cases allOf (openGroups members) with ⟨e, hone, heq⟩ | ⟨_, heq⟩
    · rw [heq]
      exact hopen e (by simp [hone])
    · rw [heq]
      exact avoids_iff.2 ⟨hall.symm, hopen⟩

/-- Folding an any-of group brings in no kind of group but all-of and any-of. -/
theorem avoids_foldAnyOf (hall : k ≠ .allOf) (hany : k ≠ .anyOf) {members : List Expr}
    (h : ∀ m ∈ members, m.Avoids k) : (foldAnyOf members).Avoids k := by
  by_cases htrue : true_ ∈ members
  · rw [foldAnyOf_of_mem htrue]
    exact avoids_true hall
  · have hkept : ∀ c ∈ dropFalse members, c.Avoids k := fun c hc => h c (mem_dropFalse_iff.1 hc).1
    rw [foldAnyOf_of_not_mem htrue]
    rcases unwrapSingleton_cases anyOf (dropFalse members) with ⟨e, hone, heq⟩ | ⟨_, heq⟩
    · rw [heq]
      exact hkept e (by simp [hone])
    · rw [heq]
      exact avoids_iff.2 ⟨hany.symm, hkept⟩

/-- Folding an exactly-one-of group brings in no kind of group but its own and any-of. -/
theorem avoids_foldExactlyOneOf (hany : k ≠ .anyOf) (hone : k ≠ .exactlyOneOf)
    {members : List Expr} (h : ∀ m ∈ members, m.Avoids k) :
    (foldExactlyOneOf members).Avoids k := by
  have hkept : ∀ c ∈ dropFalse members, c.Avoids k := fun c hc => h c (mem_dropFalse_iff.1 hc).1
  by_cases htwo : 2 ≤ members.count true_
  · rw [foldExactlyOneOf_of_two htwo]
    exact avoids_false hany
  · rcases hout : dropFalse members with _ | ⟨e, _ | ⟨e', rest⟩⟩
    · rw [foldExactlyOneOf_of_nil hout]
      exact avoids_false hany
    · rw [foldExactlyOneOf_of_one hout]
      exact hkept e (by simp [hout])
    · rw [foldExactlyOneOf_of_many (by omega) (by simp [hout])]
      exact avoids_iff.2 ⟨hone.symm, hkept⟩

/-- Folding an at-most-one-of group brings in no kind of group but its own, all-of and any-of. -/
theorem avoids_foldAtMostOneOf (hall : k ≠ .allOf) (hany : k ≠ .anyOf) (hmost : k ≠ .atMostOneOf)
    {members : List Expr} (h : ∀ m ∈ members, m.Avoids k) :
    (foldAtMostOneOf members).Avoids k := by
  have hkept : ∀ c ∈ dropFalse members, c.Avoids k := fun c hc => h c (mem_dropFalse_iff.1 hc).1
  by_cases htwo : 2 ≤ members.count true_
  · rw [foldAtMostOneOf_of_two htwo]
    exact avoids_false hany
  · by_cases hfew : (dropFalse members).length ≤ 1
    · rw [foldAtMostOneOf_of_few hfew]
      exact avoids_true hall
    · rw [foldAtMostOneOf_of_many (by omega) (by omega)]
      exact avoids_iff.2 ⟨hmost.symm, hkept⟩

/-- Folding a conditional group brings in no kind of group but its own, all-of and any-of. -/
theorem avoids_foldConditional (hall : k ≠ .allOf) (hany : k ≠ .anyOf)
    (hcondition : k ≠ .useConditional) {flag : String} {expect : Bool} {members : List Expr}
    (h : ∀ m ∈ members, m.Avoids k) : (foldConditional flag expect members).Avoids k := by
  by_cases htrue : foldAllOf members = true_
  · rw [foldConditional_of_true htrue]
    exact avoids_true hall
  · rw [foldConditional_of_ne_true htrue]
    refine avoids_iff.2 ⟨hcondition.symm, ?_⟩
    intro c hc
    exact (avoids_foldAllOf hall hany h).of_mem_allOfChildren hc

/-- Simplification adds no kind of node but those of the constants. -/
theorem avoids_simplify (hall : k ≠ .allOf) (hany : k ≠ .anyOf) {e : Expr} (h : e.Avoids k) :
    e.simplify.Avoids k := by
  induction e with
  | allOf es ih =>
    rw [simplify_allOf]
    exact avoids_foldAllOf hall hany (List.forall_mem_map.2 fun c hc => ih c hc (h.child hc))
  | anyOf es ih =>
    rw [simplify_anyOf]
    exact avoids_foldAnyOf hall hany (List.forall_mem_map.2 fun c hc => ih c hc (h.child hc))
  | exactlyOneOf es ih =>
    rw [simplify_exactlyOneOf]
    exact avoids_foldExactlyOneOf hany h.kind_ne.symm
      (List.forall_mem_map.2 fun c hc => ih c hc (h.child hc))
  | atMostOneOf es ih =>
    rw [simplify_atMostOneOf]
    exact avoids_foldAtMostOneOf hall hany h.kind_ne.symm
      (List.forall_mem_map.2 fun c hc => ih c hc (h.child hc))
  | useConditional flag expect es ih =>
    rw [simplify_useConditional]
    exact avoids_foldConditional hall hany h.kind_ne.symm
      (List.forall_mem_map.2 fun c hc => ih c hc (h.child hc))
  | package atom blocking => exact h

end Avoids

end Expr
end Dependency
end EbuildGraph
