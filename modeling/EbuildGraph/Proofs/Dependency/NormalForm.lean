import EbuildGraph.Proofs.Dependency.Folding

/-!
# The normal form of simplification

A simplified expression is a constant, or no node of it can be folded any further.  The
constants survive in two places only: one constant true below an exactly-one-of or
at-most-one-of group, and the constant false as all that a condition asks for.

Main results:

- Theorem {lit}`Expr.isNormal_simplify`: simplified expressions are in normal form.
- Theorem {lit}`Expr.simplify_of_isNormal`: simplification keeps normal forms.
- Theorem {lit}`Expr.eq_constant_of_isNormal`: a normal form without packages and
  conditions is a constant.
- Theorem {lit}`simplify_reaches_normal_form`: normal form, idempotence and constants
  together, for expressions and values.
-/

namespace EbuildGraph
namespace Dependency
namespace Expr

/-! ## Normal forms -/

/-- A node that no fold changes, told from its children. -/
def IsReduced : Expr → Prop
  | allOf children =>
    2 ≤ children.length ∧ false_ ∉ children ∧ ∀ e ∈ children, e.kind ≠ .allOf
  | anyOf children => 2 ≤ children.length ∧ true_ ∉ children ∧ false_ ∉ children
  | exactlyOneOf children =>
    2 ≤ children.length ∧ false_ ∉ children ∧ children.count true_ ≤ 1
  | atMostOneOf children =>
    2 ≤ children.length ∧ false_ ∉ children ∧ children.count true_ ≤ 1
  | useConditional _ _ children =>
    children ≠ [] ∧ (∀ e ∈ children, e.kind ≠ .allOf) ∧
      (children = [false_] ∨ false_ ∉ children)
  | package _ _ => True

/-- Every node is a constant or reduced. -/
def IsNormal (e : Expr) : Prop :=
  ∀ x ∈ e.nodes, x = true_ ∨ x = false_ ∨ x.IsReduced

/-- An expression is normal if it is a constant or no fold changes it, and its children are normal.
-/
theorem isNormal_iff {e : Expr} :
    e.IsNormal ↔ (e = true_ ∨ e = false_ ∨ e.IsReduced) ∧ ∀ c ∈ e.children, c.IsNormal :=
  forall_mem_nodes_iff

/-- An all-of group is normal if it is empty or no fold changes it, and its members are normal. -/
theorem isNormal_allOf_iff {es : List Expr} :
    (allOf es).IsNormal ↔ (es = [] ∨ (allOf es).IsReduced) ∧ ∀ e ∈ es, e.IsNormal := by
  rw [isNormal_iff]
  simp only [true_, false_, allOf.injEq, reduceCtorEq, false_or, children]

/-- An any-of group is normal if it is empty or no fold changes it, and its members are normal. -/
theorem isNormal_anyOf_iff {es : List Expr} :
    (anyOf es).IsNormal ↔ (es = [] ∨ (anyOf es).IsReduced) ∧ ∀ e ∈ es, e.IsNormal := by
  rw [isNormal_iff]
  simp only [true_, false_, anyOf.injEq, reduceCtorEq, false_or, children]

/-- An exactly-one-of group is normal if no fold changes it and its members are normal. -/
theorem isNormal_exactlyOneOf_iff {es : List Expr} :
    (exactlyOneOf es).IsNormal ↔ (exactlyOneOf es).IsReduced ∧ ∀ e ∈ es, e.IsNormal := by
  rw [isNormal_iff]
  simp only [true_, false_, reduceCtorEq, false_or, children]

/-- An at-most-one-of group is normal if no fold changes it and its members are normal. -/
theorem isNormal_atMostOneOf_iff {es : List Expr} :
    (atMostOneOf es).IsNormal ↔ (atMostOneOf es).IsReduced ∧ ∀ e ∈ es, e.IsNormal := by
  rw [isNormal_iff]
  simp only [true_, false_, reduceCtorEq, false_or, children]

/-- A conditional group is normal if no fold changes it and its members are normal. -/
theorem isNormal_useConditional_iff {flag : String} {expect : Bool} {es : List Expr} :
    (useConditional flag expect es).IsNormal ↔
      (useConditional flag expect es).IsReduced ∧ ∀ e ∈ es, e.IsNormal := by
  rw [isNormal_iff]
  simp only [true_, false_, reduceCtorEq, false_or, children]

theorem isNormal_true : true_.IsNormal :=
  isNormal_allOf_iff.2 ⟨Or.inl rfl, by simp⟩

theorem isNormal_false : false_.IsNormal :=
  isNormal_anyOf_iff.2 ⟨Or.inl rfl, by simp⟩

/-! ## Opened groups of normal members -/

/-- What a normal expression asks for side by side is normal. -/
theorem IsNormal.of_mem_allOfChildren {e c : Expr} (h : e.IsNormal) (hc : c ∈ e.allOfChildren) :
    c.IsNormal := by
  cases e with
  | allOf es => exact (isNormal_allOf_iff.1 h).2 c hc
  | _ => exact List.mem_singleton.1 hc ▸ h

/-- Opening an all-of group in normal form leaves no all-of group and nothing false. -/
theorem IsNormal.ne_of_mem_allOfChildren {e c : Expr} (h : e.IsNormal) (hfalse : e ≠ false_)
    (hc : c ∈ e.allOfChildren) : c ≠ false_ ∧ c.kind ≠ .allOf := by
  by_cases hkind : e.kind = .allOf
  · cases e with
    | allOf es =>
      obtain ⟨rfl | ⟨_, hnone, hkinds⟩, _⟩ := isNormal_allOf_iff.1 h
      · exact absurd hc List.not_mem_nil
      · exact ⟨fun heq => hnone (heq ▸ hc), hkinds c hc⟩
    | _ => simp [kind] at hkind
  · rw [allOfChildren_of_kind_ne hkind, List.mem_singleton] at hc
    exact hc ▸ ⟨hfalse, hkind⟩

/-- Opened groups of members in normal form, none of them false, leave what an all-of
group may hold. -/
theorem isNormal_of_mem_openGroups {members : List Expr} {c : Expr}
    (h : ∀ m ∈ members, m.IsNormal) (hfalse : false_ ∉ members) (hc : c ∈ openGroups members) :
    c.IsNormal ∧ c ≠ false_ ∧ c.kind ≠ .allOf := by
  obtain ⟨m, hm, hcm⟩ := mem_openGroups_iff.1 hc
  have hne : m ≠ false_ := fun heq => hfalse (heq ▸ hm)
  exact ⟨(h m hm).of_mem_allOfChildren hcm, (h m hm).ne_of_mem_allOfChildren hne hcm⟩

/-! ## Folds reach the normal form -/

/-- An all-of group of normal members folds to a normal expression. -/
theorem isNormal_foldAllOf {members : List Expr} (h : ∀ m ∈ members, m.IsNormal) :
    (foldAllOf members).IsNormal := by
  by_cases hfalse : false_ ∈ members
  · rw [foldAllOf_of_mem hfalse]
    exact isNormal_false
  · rw [foldAllOf_of_not_mem hfalse]
    have hopen : ∀ c ∈ openGroups members, c.IsNormal ∧ c ≠ false_ ∧ c.kind ≠ .allOf :=
      fun c hc => isNormal_of_mem_openGroups h hfalse hc
    rcases unwrapSingleton_cases allOf (openGroups members) with ⟨e, hone, heq⟩ | ⟨hlength, heq⟩
    · rw [heq]
      exact (hopen e (by simp [hone])).1
    · rw [heq]
      refine isNormal_allOf_iff.2 ⟨?_, fun c hc => (hopen c hc).1⟩
      refine hlength.imp_right fun htwo => ⟨htwo, ?_, fun c hc => (hopen c hc).2.2⟩
      exact fun hmem => (hopen false_ hmem).2.1 rfl

/-- An any-of group of normal members folds to a normal expression. -/
theorem isNormal_foldAnyOf {members : List Expr} (h : ∀ m ∈ members, m.IsNormal) :
    (foldAnyOf members).IsNormal := by
  by_cases htrue : true_ ∈ members
  · rw [foldAnyOf_of_mem htrue]
    exact isNormal_true
  · rw [foldAnyOf_of_not_mem htrue]
    have hkept : ∀ c ∈ dropFalse members, c.IsNormal ∧ c ≠ true_ := by
      intro c hc
      have hmem := (mem_dropFalse_iff.1 hc).1
      exact ⟨h c hmem, fun heq => htrue (heq ▸ hmem)⟩
    rcases unwrapSingleton_cases anyOf (dropFalse members) with ⟨e, hone, heq⟩ | ⟨hlength, heq⟩
    · rw [heq]
      exact (hkept e (by simp [hone])).1
    · rw [heq]
      refine isNormal_anyOf_iff.2 ⟨?_, fun c hc => (hkept c hc).1⟩
      refine hlength.imp_right fun htwo => ⟨htwo, ?_, false_not_mem_dropFalse members⟩
      exact fun hmem => (hkept true_ hmem).2 rfl

/-- An exactly-one-of group of normal members folds to a normal expression. -/
theorem isNormal_foldExactlyOneOf {members : List Expr} (h : ∀ m ∈ members, m.IsNormal) :
    (foldExactlyOneOf members).IsNormal := by
  have hkept : ∀ c ∈ dropFalse members, c.IsNormal := fun c hc => h c (mem_dropFalse_iff.1 hc).1
  by_cases htwo : 2 ≤ members.count true_
  · rw [foldExactlyOneOf_of_two htwo]
    exact isNormal_false
  · rcases hout : dropFalse members with _ | ⟨e, _ | ⟨e', rest⟩⟩
    · rw [foldExactlyOneOf_of_nil hout]
      exact isNormal_false
    · rw [foldExactlyOneOf_of_one hout]
      exact hkept e (by simp [hout])
    · have hmany : 2 ≤ (dropFalse members).length := by simp [hout]
      rw [foldExactlyOneOf_of_many (by omega) hmany]
      refine isNormal_exactlyOneOf_iff.2 ⟨⟨hmany, false_not_mem_dropFalse members, ?_⟩, hkept⟩
      rw [count_true_dropFalse]
      omega

/-- An at-most-one-of group of normal members folds to a normal expression. -/
theorem isNormal_foldAtMostOneOf {members : List Expr} (h : ∀ m ∈ members, m.IsNormal) :
    (foldAtMostOneOf members).IsNormal := by
  have hkept : ∀ c ∈ dropFalse members, c.IsNormal := fun c hc => h c (mem_dropFalse_iff.1 hc).1
  by_cases htwo : 2 ≤ members.count true_
  · rw [foldAtMostOneOf_of_two htwo]
    exact isNormal_false
  · by_cases hfew : (dropFalse members).length ≤ 1
    · rw [foldAtMostOneOf_of_few hfew]
      exact isNormal_true
    · rw [foldAtMostOneOf_of_many (by omega) (by omega)]
      refine isNormal_atMostOneOf_iff.2 ⟨⟨by omega, false_not_mem_dropFalse members, ?_⟩, hkept⟩
      rw [count_true_dropFalse]
      omega

/-- The children of a condition are those of its body.  A body that is false is kept as
the only child. -/
theorem isReduced_useConditional {flag : String} {expect : Bool} {body : Expr}
    (h : body.IsNormal) (htrue : body ≠ true_) :
    (useConditional flag expect body.allOfChildren).IsReduced := by
  by_cases hkind : body.kind = .allOf
  · cases body with
    | allOf es =>
      obtain ⟨hnil | ⟨htwo, hfalse, hkinds⟩, _⟩ := isNormal_allOf_iff.1 h
      · exact absurd (congrArg allOf hnil) htrue
      · have hne : es ≠ [] := by
          rintro rfl
          simp at htwo
        exact ⟨hne, hkinds, Or.inr hfalse⟩
    | _ => simp [kind] at hkind
  · rw [allOfChildren_of_kind_ne hkind]
    refine ⟨List.cons_ne_nil body [], by simpa using hkind, ?_⟩
    by_cases hfalse : body = false_
    · exact Or.inl (by rw [hfalse])
    · exact Or.inr (by simpa using Ne.symm hfalse)

/-- A conditional group of normal members folds to a normal expression. -/
theorem isNormal_foldConditional {flag : String} {expect : Bool} {members : List Expr}
    (h : ∀ m ∈ members, m.IsNormal) : (foldConditional flag expect members).IsNormal := by
  have hbody := isNormal_foldAllOf h
  by_cases htrue : foldAllOf members = true_
  · rw [foldConditional_of_true htrue]
    exact isNormal_true
  · rw [foldConditional_of_ne_true htrue]
    refine isNormal_useConditional_iff.2 ⟨isReduced_useConditional hbody htrue, ?_⟩
    intro c hc
    exact hbody.of_mem_allOfChildren hc

/-- A simplified expression is in normal form. -/
theorem isNormal_simplify (e : Expr) : e.simplify.IsNormal := by
  induction e with
  | allOf children ih =>
    rw [simplify_allOf]
    exact isNormal_foldAllOf (List.forall_mem_map.2 ih)
  | anyOf children ih =>
    rw [simplify_anyOf]
    exact isNormal_foldAnyOf (List.forall_mem_map.2 ih)
  | exactlyOneOf children ih =>
    rw [simplify_exactlyOneOf]
    exact isNormal_foldExactlyOneOf (List.forall_mem_map.2 ih)
  | atMostOneOf children ih =>
    rw [simplify_atMostOneOf]
    exact isNormal_foldAtMostOneOf (List.forall_mem_map.2 ih)
  | useConditional flag expect children ih =>
    rw [simplify_useConditional]
    exact isNormal_foldConditional (List.forall_mem_map.2 ih)
  | package atom blocking =>
    exact isNormal_iff.2 ⟨Or.inr (Or.inr trivial), by simp [simplify, children]⟩

/-! ## Folds keep reduced groups -/

/-- A reduced all-of group is folded to itself. -/
theorem foldAllOf_of_isReduced {es : List Expr} (h : (allOf es).IsReduced) :
    foldAllOf es = allOf es := by
  obtain ⟨htwo, hfalse, hkinds⟩ := h
  rw [foldAllOf_of_not_mem hfalse, openGroups_eq_self hkinds, unwrapSingleton_of_two allOf htwo]

/-- A reduced any-of group is folded to itself. -/
theorem foldAnyOf_of_isReduced {es : List Expr} (h : (anyOf es).IsReduced) :
    foldAnyOf es = anyOf es := by
  obtain ⟨htwo, htrue, hfalse⟩ := h
  rw [foldAnyOf_of_not_mem htrue, dropFalse_eq_self hfalse, unwrapSingleton_of_two anyOf htwo]

/-- A reduced exactly-one-of group is folded to itself. -/
theorem foldExactlyOneOf_of_isReduced {es : List Expr} (h : (exactlyOneOf es).IsReduced) :
    foldExactlyOneOf es = exactlyOneOf es := by
  obtain ⟨htwo, hfalse, htrues⟩ := h
  have hout := dropFalse_eq_self hfalse
  rw [foldExactlyOneOf_of_many htrues (by rwa [hout]), hout]

/-- A reduced at-most-one-of group is folded to itself. -/
theorem foldAtMostOneOf_of_isReduced {es : List Expr} (h : (atMostOneOf es).IsReduced) :
    foldAtMostOneOf es = atMostOneOf es := by
  obtain ⟨htwo, hfalse, htrues⟩ := h
  have hout := dropFalse_eq_self hfalse
  rw [foldAtMostOneOf_of_many htrues (by rwa [hout]), hout]

/-- A reduced conditional group is folded to itself. -/
theorem foldConditional_of_isReduced {flag : String} {expect : Bool} {es : List Expr}
    (h : (useConditional flag expect es).IsReduced) :
    foldConditional flag expect es = useConditional flag expect es := by
  obtain ⟨hne, hkinds, rfl | hfalse⟩ := h
  · rfl
  · have hbody : foldAllOf es = unwrapSingleton allOf es := by
      rw [foldAllOf_of_not_mem hfalse, openGroups_eq_self hkinds]
    rcases unwrapSingleton_cases allOf es with ⟨e, rfl, heq⟩ | ⟨_, heq⟩
    · have hkind : e.kind ≠ .allOf := hkinds e (by simp)
      have htrue : e ≠ true_ := fun h => hkind (h ▸ rfl)
      rw [heq] at hbody
      rw [foldConditional_of_ne_true (by rwa [hbody]), hbody, allOfChildren_of_kind_ne hkind]
    · have htrue : allOf es ≠ true_ := fun h => hne (allOf.inj h)
      rw [heq] at hbody
      rw [foldConditional_of_ne_true (by rwa [hbody]), hbody, allOfChildren]

theorem map_eq_self {pass : Expr → Expr} {es : List Expr} (h : ∀ e ∈ es, pass e = e) :
    es.map pass = es :=
  (List.map_congr_left h).trans (List.map_id es)

/-- Simplification changes nothing about a normal form. -/
theorem simplify_of_isNormal {e : Expr} (h : e.IsNormal) : e.simplify = e := by
  induction e with
  | allOf es ih =>
    obtain ⟨rfl | hreduced, hchildren⟩ := isNormal_allOf_iff.1 h
    · rfl
    · rw [simplify_allOf, map_eq_self fun c hc => ih c hc (hchildren c hc),
        foldAllOf_of_isReduced hreduced]
  | anyOf es ih =>
    obtain ⟨rfl | hreduced, hchildren⟩ := isNormal_anyOf_iff.1 h
    · rfl
    · rw [simplify_anyOf, map_eq_self fun c hc => ih c hc (hchildren c hc),
        foldAnyOf_of_isReduced hreduced]
  | exactlyOneOf es ih =>
    obtain ⟨hreduced, hchildren⟩ := isNormal_exactlyOneOf_iff.1 h
    rw [simplify_exactlyOneOf, map_eq_self fun c hc => ih c hc (hchildren c hc),
      foldExactlyOneOf_of_isReduced hreduced]
  | atMostOneOf es ih =>
    obtain ⟨hreduced, hchildren⟩ := isNormal_atMostOneOf_iff.1 h
    rw [simplify_atMostOneOf, map_eq_self fun c hc => ih c hc (hchildren c hc),
      foldAtMostOneOf_of_isReduced hreduced]
  | useConditional flag expect es ih =>
    obtain ⟨hreduced, hchildren⟩ := isNormal_useConditional_iff.1 h
    rw [simplify_useConditional, map_eq_self fun c hc => ih c hc (hchildren c hc),
      foldConditional_of_isReduced hreduced]
  | package atom blocking => rfl

/-- A second simplification changes nothing. -/
theorem simplify_simplify (e : Expr) : e.simplify.simplify = e.simplify :=
  simplify_of_isNormal (isNormal_simplify e)

/-- An all-of group of one member in normal form folds to the member. -/
theorem foldAllOf_singleton {e : Expr} (h : e.IsNormal) : foldAllOf [e] = e := by
  by_cases hfalse : e = false_
  · rw [hfalse]
    rfl
  · have hopen : openGroups [e] = e.allOfChildren := by simp [openGroups]
    rw [foldAllOf_of_not_mem (by simpa using Ne.symm hfalse), hopen]
    by_cases hkind : e.kind = .allOf
    · cases e with
      | allOf es =>
        obtain ⟨rfl | hreduced, _⟩ := isNormal_allOf_iff.1 h
        · rfl
        · exact unwrapSingleton_of_two allOf hreduced.1
      | _ => simp [kind] at hkind
    · rw [allOfChildren_of_kind_ne hkind, unwrapSingleton_singleton]

/-- Folding the members of an opened expression in normal form restores it. -/
theorem foldAllOf_allOfChildren {e : Expr} (h : e.IsNormal) : foldAllOf e.allOfChildren = e := by
  cases e with
  | allOf es =>
    obtain ⟨rfl | hreduced, _⟩ := isNormal_allOf_iff.1 h
    · rfl
    · exact foldAllOf_of_isReduced hreduced
  | _ => exact foldAllOf_singleton h

/-- Asking side by side for what a normal expression asks for is asking for it. -/
theorem simplify_allOf_allOfChildren {e : Expr} (h : e.IsNormal) :
    simplify (allOf e.allOfChildren) = e := by
  have hself : ∀ c ∈ e.allOfChildren, c.simplify = c := fun c hc =>
    simplify_of_isNormal (h.of_mem_allOfChildren hc)
  rw [simplify_allOf, map_eq_self hself, foldAllOf_allOfChildren h]

/-! ## Normal forms without packages and conditions -/

/-- Constants alone do not make a group that counts its members: none may be false and
only one may be true. -/
theorem not_two_constants {es : List Expr} (h : ∀ e ∈ es, e = true_ ∨ e = false_) :
    ¬(2 ≤ es.length ∧ false_ ∉ es ∧ es.count true_ ≤ 1) := by
  rintro ⟨htwo, hfalse, htrues⟩
  have hall : ∀ e ∈ es, true_ = e := by
    intro e he
    rcases h e he with rfl | rfl
    · rfl
    · exact absurd he hfalse
  have hcount : es.count true_ = es.length := List.count_eq_length.2 hall
  omega

/-- A normal form is a constant unless a package or a condition occurs in it. -/
theorem eq_constant_of_isNormal {e : Expr} (h : e.IsNormal) (hpackage : e.Avoids .package)
    (hcondition : e.Avoids .useConditional) : e = true_ ∨ e = false_ := by
  induction e with
  | allOf es ih =>
    obtain ⟨rfl | ⟨htwo, hfalse, hkinds⟩, hchildren⟩ := isNormal_allOf_iff.1 h
    · exact Or.inl rfl
    · obtain ⟨e, he⟩ := List.exists_mem_of_length_pos (Nat.lt_of_lt_of_le Nat.zero_lt_two htwo)
      rcases ih e he (hchildren e he) (hpackage.child he) (hcondition.child he) with rfl | rfl
      · exact absurd rfl (hkinds true_ he)
      · exact absurd he hfalse
  | anyOf es ih =>
    obtain ⟨rfl | ⟨htwo, htrue, hfalse⟩, hchildren⟩ := isNormal_anyOf_iff.1 h
    · exact Or.inr rfl
    · obtain ⟨e, he⟩ := List.exists_mem_of_length_pos (Nat.lt_of_lt_of_le Nat.zero_lt_two htwo)
      rcases ih e he (hchildren e he) (hpackage.child he) (hcondition.child he) with rfl | rfl
      · exact absurd he htrue
      · exact absurd he hfalse
  | exactlyOneOf es ih =>
    obtain ⟨hreduced, hchildren⟩ := isNormal_exactlyOneOf_iff.1 h
    have hconstant : ∀ e ∈ es, e = true_ ∨ e = false_ := fun e he =>
      ih e he (hchildren e he) (hpackage.child he) (hcondition.child he)
    exact absurd hreduced (not_two_constants hconstant)
  | atMostOneOf es ih =>
    obtain ⟨hreduced, hchildren⟩ := isNormal_atMostOneOf_iff.1 h
    have hconstant : ∀ e ∈ es, e = true_ ∨ e = false_ := fun e he =>
      ih e he (hchildren e he) (hpackage.child he) (hcondition.child he)
    exact absurd hreduced (not_two_constants hconstant)
  | useConditional flag expect es ih => exact absurd rfl hcondition.kind_ne
  | package atom blocking => exact absurd rfl hpackage.kind_ne

end Expr

/-- Simplifying a dependency a second time changes nothing. -/
theorem Spec.simplify_simplify (d : Spec) : d.simplify.simplify = d.simplify := by
  have hself := Expr.simplify_allOf_allOfChildren (Expr.isNormal_simplify d.asExpr)
  change Spec.ofExpr (Expr.allOf d.asExpr.simplify.allOfChildren).simplify = d.simplify
  rw [hself, Spec.simplify]

/-- Simplification reaches a normal form and then changes nothing more, for expressions
and for whole values.  Where neither a package nor a condition occurs, it leaves one of
the two constants. -/
theorem simplify_reaches_normal_form :
    (∀ e : Expr, e.simplify.IsNormal ∧ e.simplify.simplify = e.simplify ∧
      (e.Avoids .package → e.Avoids .useConditional →
        e.simplify = Expr.true_ ∨ e.simplify = Expr.false_)) ∧
    ∀ d : Spec, d.simplify.simplify = d.simplify := by
  refine ⟨fun e => ⟨Expr.isNormal_simplify e, Expr.simplify_simplify e, ?_⟩,
    Spec.simplify_simplify⟩
  intro hpackage hcondition
  exact Expr.eq_constant_of_isNormal (Expr.isNormal_simplify e)
    (Expr.avoids_simplify (by decide) (by decide) hpackage)
    (Expr.avoids_simplify (by decide) (by decide) hcondition)

/-- A group that counts its members is a constant when these are: here one of two holds. -/
theorem simplify_counted_constants :
    (Expr.exactlyOneOf [.atMostOneOf [.allOf []], .anyOf []]).Avoids .package ∧
      (Expr.exactlyOneOf [.atMostOneOf [.allOf []], .anyOf []]).Avoids .useConditional ∧
      ((Expr.exactlyOneOf [.atMostOneOf [.allOf []], .anyOf []]).simplify = Expr.true_ ∨
        (Expr.exactlyOneOf [.atMostOneOf [.allOf []], .anyOf []]).simplify = Expr.false_) := by
  refine ⟨by decide, by decide, ?_⟩
  exact (simplify_reaches_normal_form.1 _).2.2 (by decide) (by decide)

end Dependency
end EbuildGraph
