import EbuildGraph.Dependency.Blockers
import EbuildGraph.Proofs.Dependency.Leaves

/-!
# Values without blockers

When blockers are removed, a blocked leaf becomes the constant true.  What becomes true on its
account leaves the group around it, and an any-of group with such a member is true itself.  So
nothing blocked and nothing constantly true is left inside a group, and what is left holds as the
whole does with its blocked leaves counted as true.

Main definitions:

- {lit}`Expr.IsCleared`: no leaf is blocked and no group has a member that is constantly true.
- {lit}`Spec.heeds`: whether packages satisfy a leaf, a blocked one by their absence.

Main results:

- Theorem {lit}`Expr.isCleared_withoutBlockers`: the removal leaves nothing to remove.
- Theorem {lit}`Expr.withoutBlockers_of_isCleared`: it keeps what is cleared already.
- Theorem {lit}`Expr.holds_withoutBlockers`: blocked leaves count as true.
- Theorem {lit}`Spec.isSatisfiedBy_of_absent`: what satisfies a value before and after.
-/

namespace EbuildGraph
namespace Dependency
namespace Expr

/-! ## Members that are true -/

/-- Whether a member is the true constant is whether that is among the members. -/
theorem any_isTrue_iff {members : List Expr} : members.any isTrue = true ↔ true_ ∈ members := by
  simp [isTrue_iff]

/-- What is left of members is all of them but the true constant. -/
theorem mem_dropTrue_iff {e : Expr} {members : List Expr} :
    e ∈ dropTrue members ↔ e ∈ members ∧ e ≠ true_ := by
  simp [dropTrue, ← Bool.not_eq_true, isTrue_iff]

theorem true_not_mem_dropTrue (members : List Expr) : true_ ∉ dropTrue members :=
  fun h => (mem_dropTrue_iff.1 h).2 rfl

theorem dropTrue_eq_self {members : List Expr} (h : true_ ∉ members) :
    dropTrue members = members := by
  apply List.filter_eq_self.2
  intro e he
  have hne : e ≠ true_ := fun heq => h (heq ▸ he)
  simpa [← Bool.not_eq_true, isTrue_iff] using hne

/-! ## Steps of the removal -/

/-- Blockers are removed from each of several expressions on its own. -/
theorem withoutBlockersAll_eq_mapM (es : List Expr) :
    withoutBlockersAll es = es.mapM withoutBlockers := by
  induction es with
  | nil => rfl
  | cons e rest ih =>
    rw [withoutBlockersAll, List.mapM_cons, ih]
    cases e.withoutBlockers with
    | error err => rfl
    | ok x => cases rest.mapM withoutBlockers <;> rfl

/-- Each expression without blockers comes from one that may have some. -/
theorem exists_of_mem_withoutBlockersAll {es out : List Expr}
    (hout : withoutBlockersAll es = .ok out) {x : Expr} (hx : x ∈ out) :
    ∃ e ∈ es, e.withoutBlockers = .ok x :=
  exists_of_mem_mapM ((withoutBlockersAll_eq_mapM es).symm.trans hout) hx

/-- What the removal gives each member of a list it gives all that is left of the list. -/
theorem forall_mem_of_withoutBlockersAll {p : Expr → Prop} {es out : List Expr}
    (h : ∀ e ∈ es, ∀ {x : Expr}, e.withoutBlockers = .ok x → p x)
    (hout : withoutBlockersAll es = .ok out) : ∀ x ∈ out, p x := by
  intro x hx
  obtain ⟨e, he, hex⟩ := exists_of_mem_withoutBlockersAll hout hx
  exact h e he hex

/-- Each expression that may have blockers has one without any. -/
theorem exists_mem_of_withoutBlockersAll {es out : List Expr}
    (hout : withoutBlockersAll es = .ok out) {e : Expr} (he : e ∈ es) :
    ∃ x ∈ out, e.withoutBlockers = .ok x :=
  exists_mem_of_mapM ((withoutBlockersAll_eq_mapM es).symm.trans hout) he

/-- Expressions are refused as one of them is. -/
theorem exists_of_withoutBlockersAll_eq_error {es : List Expr} {err : Error}
    (h : withoutBlockersAll es = .error err) : ∃ e ∈ es, e.withoutBlockers = .error err :=
  exists_of_mapM_eq_error ((withoutBlockersAll_eq_mapM es).symm.trans h)

/-- Expressions stay as they are when each of them does. -/
theorem withoutBlockersAll_eq_self {es : List Expr} (h : ∀ e ∈ es, e.withoutBlockers = .ok e) :
    withoutBlockersAll es = .ok es := by
  rw [withoutBlockersAll_eq_mapM, mapM_eq_ok_iff, List.forall₂_same]
  exact h

/-- A group of which no member became true is built anew. -/
theorem keepWhole_of_not_mem {group : List Expr → Expr} {original : Expr} {members : List Expr}
    (h : true_ ∉ members) : keepWhole group original members = .ok (group members) :=
  if_neg (mt any_isTrue_iff.1 h)

/-- A group of which a member became true is refused. -/
theorem keepWhole_of_mem {group : List Expr → Expr} {original : Expr} {members : List Expr}
    (h : true_ ∈ members) :
    keepWhole group original members = .error (.ambiguousBlocks original.text) :=
  if_pos (any_isTrue_iff.2 h)

/-- What is built of members is their group, and no member became true. -/
theorem keepWhole_eq_ok_iff {group : List Expr → Expr} {original e : Expr}
    {members : List Expr} :
    keepWhole group original members = .ok e ↔ true_ ∉ members ∧ group members = e := by
  by_cases h : true_ ∈ members
  · simp [keepWhole_of_mem h, h]
  · simp [keepWhole_of_not_mem h, h]

/-- What is left of an any-of group with some members left. -/
theorem ite_any_isTrue_of_mem {members : List Expr} (h : true_ ∈ members) :
    (if members.any isTrue then true_ else anyOf members) = true_ :=
  if_pos (any_isTrue_iff.2 h)

/-- An any-of group of which no member became true stays one. -/
theorem ite_any_isTrue_of_not_mem {members : List Expr} (h : true_ ∉ members) :
    (if members.any isTrue then true_ else anyOf members) = anyOf members :=
  if_neg (mt any_isTrue_iff.1 h)

/-! ## What is left -/

/-- No leaf of the expression is blocked, and no group of it has a member that is constantly
true. -/
structure IsCleared (e : Expr) : Prop where
  wanted : ∀ leaf ∈ e.leaves, leaf.2.isBlocked = false
  firm : ∀ x ∈ e.nodes, true_ ∉ x.children

/-- The leaves of a group are those of its children. -/
theorem leaves_of_kind_ne {e : Expr} (h : e.kind ≠ .package) :
    e.leaves = leavesOfAll e.children := by
  cases e with
  | package atom blocking => exact absurd rfl h
  | _ => rfl

/-- A group is cleared if its children are and none of them is the true constant. -/
theorem isCleared_iff {e : Expr} (h : e.kind ≠ .package) :
    e.IsCleared ↔ true_ ∉ e.children ∧ ∀ c ∈ e.children, c.IsCleared := by
  constructor
  · rintro ⟨hwanted, hfirm⟩
    rw [leaves_of_kind_ne h] at hwanted
    obtain ⟨hroot, hchildren⟩ := forall_mem_nodes_iff.1 hfirm
    refine ⟨hroot, fun c hc => ⟨fun leaf hleaf => ?_, hchildren c hc⟩⟩
    exact hwanted leaf (mem_leavesOfAll_iff.2 ⟨c, hc, hleaf⟩)
  · rintro ⟨hroot, hchildren⟩
    refine ⟨fun leaf hleaf => ?_, forall_mem_nodes_iff.2 ⟨hroot, fun c hc => (hchildren c hc).firm⟩⟩
    rw [leaves_of_kind_ne h] at hleaf
    obtain ⟨c, hc, hleaf⟩ := mem_leavesOfAll_iff.1 hleaf
    exact (hchildren c hc).wanted leaf hleaf

/-- A leaf is cleared if it does not block. -/
theorem isCleared_package_iff {atom : Atom} {blocking : Blocking} :
    (package atom blocking).IsCleared ↔ blocking.isBlocked = false := by
  constructor
  · exact fun h => h.wanted (atom, blocking) List.mem_cons_self
  · intro h
    exact ⟨by simpa [leaves] using h, by simp [nodes, children]⟩

theorem isCleared_true : true_.IsCleared :=
  (isCleared_iff (by decide)).2 ⟨List.not_mem_nil, nofun⟩

/-- Cleared members are cleared without the true constant. -/
theorem isCleared_dropTrue {members : List Expr} (h : ∀ e ∈ members, e.IsCleared) :
    ∀ e ∈ dropTrue members, e.IsCleared :=
  fun e he => h e (mem_dropTrue_iff.1 he).1

/-- The removal leaves nothing to remove. -/
theorem isCleared_withoutBlockers {e x : Expr} (h : e.withoutBlockers = .ok x) :
    x.IsCleared := by
  induction e generalizing x with
  | allOf es ih | useConditional flag expect es ih =>
    obtain ⟨out, hout, rfl⟩ := map_eq_ok_iff.1 h
    exact (isCleared_iff (by simp [kind])).2
      ⟨true_not_mem_dropTrue out, isCleared_dropTrue (forall_mem_of_withoutBlockersAll ih hout)⟩
  | anyOf es ih =>
    obtain ⟨out, hout, rfl⟩ := map_eq_ok_iff.1 h
    by_cases htrue : true_ ∈ out
    · rw [ite_any_isTrue_of_mem htrue]
      exact isCleared_true
    · rw [ite_any_isTrue_of_not_mem htrue]
      exact (isCleared_iff (by simp [kind])).2 ⟨htrue, forall_mem_of_withoutBlockersAll ih hout⟩
  | exactlyOneOf es ih | atMostOneOf es ih =>
    obtain ⟨out, hout, hkeep⟩ := bind_eq_ok_iff.1 h
    obtain ⟨htrue, rfl⟩ := keepWhole_eq_ok_iff.1 hkeep
    exact (isCleared_iff (by simp [kind])).2 ⟨htrue, forall_mem_of_withoutBlockersAll ih hout⟩
  | package atom blocking =>
    obtain rfl := Except.ok.inj h
    split
    · exact isCleared_true
    · next hblocked => exact isCleared_package_iff.2 (by simpa using hblocked)

/-- From the children of a cleared group there is nothing to remove. -/
theorem IsCleared.withoutBlockersAll_children {e : Expr} (h : e.IsCleared)
    (hkind : e.kind ≠ .package)
    (ih : ∀ c ∈ e.children, c.IsCleared → c.withoutBlockers = .ok c) :
    true_ ∉ e.children ∧ withoutBlockersAll e.children = .ok e.children := by
  obtain ⟨htrue, hchildren⟩ := (isCleared_iff hkind).1 h
  exact ⟨htrue, withoutBlockersAll_eq_self fun c hc => ih c hc (hchildren c hc)⟩

/-- The removal keeps what is cleared already. -/
theorem withoutBlockers_of_isCleared {e : Expr} (h : e.IsCleared) :
    e.withoutBlockers = .ok e := by
  induction e with
  | allOf es ih | useConditional flag expect es ih =>
    obtain ⟨htrue, hself⟩ : true_ ∉ es ∧ withoutBlockersAll es = .ok es :=
      h.withoutBlockersAll_children (by simp [kind]) ih
    rw [withoutBlockers, hself, Except.map, dropTrue_eq_self htrue]
  | anyOf es ih =>
    obtain ⟨htrue, hself⟩ : true_ ∉ es ∧ withoutBlockersAll es = .ok es :=
      h.withoutBlockersAll_children (by simp [kind]) ih
    rw [withoutBlockers, hself, Except.map, ite_any_isTrue_of_not_mem htrue]
  | exactlyOneOf es ih | atMostOneOf es ih =>
    obtain ⟨htrue, hself⟩ : true_ ∉ es ∧ withoutBlockersAll es = .ok es :=
      h.withoutBlockersAll_children (by simp [kind]) ih
    rw [withoutBlockers, hself, Except.bind, keepWhole_of_not_mem htrue]
  | package atom blocking =>
    rw [withoutBlockers, isCleared_package_iff.1 h]
    rfl

/-! ## What is left holds as before -/

variable {leaf leaf' : Atom → Blocking → Bool} {flags : NameSet}

/-- The true constant does not count in an all-of group. -/
theorem holds_allOf_dropTrue (members : List Expr) :
    (allOf (dropTrue members)).holds leaf flags = (allOf members).holds leaf flags := by
  rw [Bool.eq_iff_iff, holds_allOf_iff, holds_allOf_iff]
  constructor
  · intro h e he
    by_cases htrue : e = true_
    · rw [htrue, holds_true]
    · exact h e (mem_dropTrue_iff.2 ⟨he, htrue⟩)
  · intro h e he
    exact h e (mem_dropTrue_iff.1 he).1

/-- The true constant does not count under a condition. -/
theorem holds_useConditional_dropTrue (flag : String) (expect : Bool) (members : List Expr) :
    (useConditional flag expect (dropTrue members)).holds leaf flags =
      (useConditional flag expect members).holds leaf flags := by
  have hbody : (allOf (dropTrue members)).holds leaf flags = (allOf members).holds leaf flags :=
    holds_allOf_dropTrue members
  rw [Bool.eq_iff_iff, holds_useConditional_iff, holds_useConditional_iff, ← holds_allOf_iff,
    ← holds_allOf_iff, hbody]

/-- All of several expressions hold without their blockers as they do with them. -/
theorem holdsAll_withoutBlockersAll {es out : List Expr}
    (h : ∀ e ∈ es, ∀ {x : Expr}, e.withoutBlockers = .ok x →
      x.holds leaf flags = e.holds leaf' flags)
    (hout : withoutBlockersAll es = .ok out) : holdsAll leaf flags out = holdsAll leaf' flags es := by
  have hmembers := mapM_eq_ok_iff.1 ((withoutBlockersAll_eq_mapM es).symm.trans hout)
  clear hout
  induction hmembers with
  | nil => rfl
  | @cons e x es out hx _ ih =>
    obtain ⟨hhead, htail⟩ := List.forall_mem_cons.1 h
    rw [holdsAll, holdsAll, hhead hx, ih htail]

/-- What is left of an expression holds when the expression does with its blocked leaves
counted as true. -/
theorem holds_withoutBlockers {e x : Expr} (h : e.withoutBlockers = .ok x) :
    x.holds leaf flags =
      e.holds (fun atom blocking => blocking.isBlocked || leaf atom blocking) flags := by
  induction e generalizing x with
  | allOf es ih =>
    obtain ⟨out, hout, rfl⟩ := map_eq_ok_iff.1 h
    rw [holds_allOf_dropTrue, holds, holds, holdsAll_withoutBlockersAll ih hout]
  | anyOf es ih =>
    -- The group of what is left of the members holds as before, and a member that became true
    -- makes it hold, as the constant does that then stands for it.
    obtain ⟨out, hout, rfl⟩ := map_eq_ok_iff.1 h
    rw [holds, ← holdsAll_withoutBlockersAll ih hout, ← holds]
    by_cases htrue : true_ ∈ out
    · rw [ite_any_isTrue_of_mem htrue, holds_true, eq_comm, holds_anyOf_iff]
      exact ⟨true_, htrue, holds_true⟩
    · rw [ite_any_isTrue_of_not_mem htrue]
  | exactlyOneOf es ih | atMostOneOf es ih =>
    obtain ⟨out, hout, hkeep⟩ := bind_eq_ok_iff.1 h
    obtain ⟨_, rfl⟩ := keepWhole_eq_ok_iff.1 hkeep
    rw [holds, holds, holdsAll_withoutBlockersAll ih hout]
  | useConditional flag expect es ih =>
    obtain ⟨out, hout, rfl⟩ := map_eq_ok_iff.1 h
    rw [holds_useConditional_dropTrue, holds, holds, holdsAll_withoutBlockersAll ih hout]
  | package atom blocking =>
    obtain rfl := Except.ok.inj h
    cases hblocked : blocking.isBlocked <;> simp [holds, hblocked]

end Expr

/-! ## Whole values -/

namespace Spec

/-- A dependency without blockers is the expression for it without blockers. -/
theorem withoutBlockers_eq_ok_iff {d left : Spec} :
    d.withoutBlockers = .ok left ↔ d.asExpr.withoutBlockers = .ok left.asExpr := by
  constructor
  · intro h
    obtain ⟨out, hout, rfl⟩ := map_eq_ok_iff.1 h
    exact map_eq_ok_iff.2 ⟨out, hout, rfl⟩
  · intro h
    obtain ⟨out, hout, heq⟩ := map_eq_ok_iff.1 h
    exact map_eq_ok_iff.2 ⟨out, hout, congrArg Spec.mk (Expr.allOf.inj heq)⟩

/-- A dependency is refused as the expression for it is. -/
theorem withoutBlockers_eq_error_iff {d : Spec} {err : Error} :
    d.withoutBlockers = .error err ↔ d.asExpr.withoutBlockers = .error err :=
  map_eq_error_iff.trans map_eq_error_iff.symm

/-- What the removal leaves of a value has no blocked leaf and no group, the whole value among
them, with a member that is constantly true.  Another removal keeps it. -/
theorem cleared_of_withoutBlockers {d left : Spec} (h : d.withoutBlockers = .ok left) :
    (∀ leaf ∈ left.leaves, leaf.2.isBlocked = false) ∧
      (∀ x ∈ left.asExpr.nodes, Expr.true_ ∉ x.children) ∧ left.withoutBlockers = .ok left := by
  have hcleared := Expr.isCleared_withoutBlockers (withoutBlockers_eq_ok_iff.1 h)
  have hagain := Expr.withoutBlockers_of_isCleared hcleared
  exact ⟨hcleared.wanted, hcleared.firm, withoutBlockers_eq_ok_iff.2 hagain⟩

/-- A choice with a blocked alternative, a blocked package, and a blocked package that a flag
asks for next to a wanted one. -/
def sampleBlocked : Spec :=
  ⟨[.package (.ofName "x/x") .weak, .package (.ofName "a/a") .none,
    .anyOf [.allOf [.package (.ofName "y/y") .strong], .package (.ofName "b/b") .none],
    .useConditional "c" true [.package (.ofName "z/z") .weak, .package (.ofName "d/d") .none]]⟩

/-- What the removal leaves of it: the choice is gone as a whole. -/
def sampleUnblocked : Spec :=
  ⟨[.package (.ofName "a/a") .none,
    .useConditional "c" true [.package (.ofName "d/d") .none]]⟩

/-- The sample without its blockers is cleared and stays as it is. -/
theorem cleared_sampleUnblocked : sampleBlocked.withoutBlockers = .ok sampleUnblocked ∧
    (∀ leaf ∈ sampleUnblocked.leaves, leaf.2.isBlocked = false) ∧
      (∀ x ∈ sampleUnblocked.asExpr.nodes, Expr.true_ ∉ x.children) ∧
      sampleUnblocked.withoutBlockers = .ok sampleUnblocked :=
  have h : sampleBlocked.withoutBlockers = .ok sampleUnblocked := rfl
  ⟨h, cleared_of_withoutBlockers h⟩

/-! ## Blockers that are satisfied by absence -/

/-- Whether packages satisfy a leaf: a wanted one by a package that its atom admits, a blocked
one by the absence of such a package. -/
def heeds (packages : List ConcretePackage) (atom : Atom) (blocking : Blocking) : Bool :=
  packages.any atom.admits != blocking.isBlocked

/-- Where no package is one that a blocked leaf names, what the removal leaves is satisfied
exactly when the value is with its blocked leaves satisfied by absence.  The value as it stands
is satisfied when it is with its blocked leaves not satisfied. -/
theorem isSatisfiedBy_of_absent {d left : Spec} (h : d.withoutBlockers = .ok left)
    {packages : List ConcretePackage}
    (habsent : ∀ leaf ∈ d.leaves, leaf.2.isBlocked = true → packages.any leaf.1.admits = false)
    (flags : NameSet) :
    left.isSatisfiedBy packages flags = d.asExpr.holds (heeds packages) flags ∧
      d.isSatisfiedBy packages flags = d.asExpr.holds (fun atom blocking =>
        !blocking.isBlocked && packages.any atom.admits) flags := by
  rw [isSatisfiedBy_eq_asExpr, isSatisfiedBy_eq_asExpr, Expr.isSatisfiedBy, Expr.isSatisfiedBy,
    Expr.holds_withoutBlockers (withoutBlockers_eq_ok_iff.1 h)]
  constructor
  · refine Expr.holds_congr_of_leaves (fun leaf hleaf => ?_) flags
    cases hblocked : leaf.2.isBlocked with
    | false => simp [heeds, hblocked]
    | true => simp [heeds, hblocked, habsent leaf hleaf hblocked]
  · refine Expr.holds_congr_of_leaves (fun leaf hleaf => ?_) flags
    cases hblocked : leaf.2.isBlocked with
    | false => simp
    | true => simp [habsent leaf hleaf hblocked]

/-- A package that the sample wants, and no package that it forbids. -/
def sampleInstalled : List ConcretePackage :=
  [⟨"a/a", ⟨.zero, [], none, [], none⟩, "0", .empty⟩]

/-- What is left of the sample is satisfied, as the sample is with its blocked leaves satisfied
by absence. -/
theorem isSatisfiedBy_sampleInstalled :
    sampleBlocked.withoutBlockers = .ok sampleUnblocked ∧
      (∀ leaf ∈ sampleBlocked.leaves, leaf.2.isBlocked = true →
        sampleInstalled.any leaf.1.admits = false) ∧
      sampleUnblocked.isSatisfiedBy sampleInstalled .empty =
        sampleBlocked.asExpr.holds (heeds sampleInstalled) .empty ∧
      sampleUnblocked.isSatisfiedBy sampleInstalled .empty = true :=
  have h : sampleBlocked.withoutBlockers = .ok sampleUnblocked := rfl
  have habsent : ∀ leaf ∈ sampleBlocked.leaves, leaf.2.isBlocked = true →
      sampleInstalled.any leaf.1.admits = false := by decide
  ⟨h, habsent, (isSatisfiedBy_of_absent h habsent .empty).1, by decide⟩

/-- A value that only forbids a package. -/
def sampleForbidding : Spec :=
  ⟨[.package (.ofName "x/x") .weak]⟩

/-- Nothing is left of it to ask for, but where the forbidden package is absent it counts as
not satisfied. -/
theorem isSatisfiedBy_sampleForbidding :
    sampleForbidding.withoutBlockers = .ok ⟨[]⟩ ∧
      (∀ leaf ∈ sampleForbidding.leaves, leaf.2.isBlocked = true →
        ([] : List ConcretePackage).any leaf.1.admits = false) ∧
      ¬ sampleForbidding.isSatisfiedBy [] .empty = (⟨[]⟩ : Spec).isSatisfiedBy [] .empty :=
  ⟨rfl, by decide, by decide⟩

end Spec
end Dependency
end EbuildGraph
