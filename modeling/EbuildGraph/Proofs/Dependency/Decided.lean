import EbuildGraph.Dependency.Parser
import EbuildGraph.Proofs.Dependency.Blockers
import EbuildGraph.Proofs.Dependency.Extraction

/-!
# Values that leave no choice

A value is made into a list of atoms in steps: its conditions are decided, its blockers removed, it
is simplified, and what is left must not leave a choice.  In a simplified expression every group
that counts its members and every any-of group has two members, which is a choice, so what is left
is a list of atoms or a constant.  The list asks for what the value asks for.  The constant false
leaves no choice either: it asks for nothing, though nothing satisfies it.

Main definitions:

- {lit}`Spec.isMetBy`: whether packages satisfy a value with its blocked leaves counted as true.
- {lit}`Spec.IsUnsatisfiable`: whether a value holds for no truth values of its atoms.

Main results:

- Theorem {lit}`Expr.holds_iff_granted`: an expression without choice holds as its atoms do.
- Theorem {lit}`Spec.isMetBy_iff_of_decidedAtoms`: what the list of atoms says of the value.
-/

namespace EbuildGraph
namespace Dependency
namespace Expr

variable {assign : Atom → Bool}

/-! ## Kinds of nodes -/

/-- Removing blockers from expressions makes no group of a kind that none of them has. -/
theorem avoids_withoutBlockersAll {k : Kind} {es out : List Expr} (h : ∀ e ∈ es, e.Avoids k)
    (ih : ∀ e ∈ es, ∀ {x : Expr}, e.Avoids k → e.withoutBlockers = .ok x → x.Avoids k)
    (hout : withoutBlockersAll es = .ok out) : ∀ x ∈ out, x.Avoids k :=
  forall_mem_of_withoutBlockersAll (fun e he _ => ih e he (h e he)) hout

/-- The removal of blockers adds no kind of node but all-of groups. -/
theorem avoids_withoutBlockers {k : Kind} (hall : k ≠ .allOf) {e x : Expr} (h : e.Avoids k)
    (hx : e.withoutBlockers = .ok x) : x.Avoids k := by
  induction e generalizing x with
  | allOf es ih | useConditional flag expect es ih =>
    obtain ⟨out, hout, rfl⟩ := map_eq_ok_iff.1 hx
    have hleft := avoids_withoutBlockersAll (fun _ => h.child) ih hout
    exact avoids_iff.2 ⟨h.kind_ne, fun c hc => hleft c (mem_dropTrue_iff.1 hc).1⟩
  | anyOf es ih =>
    obtain ⟨out, hout, rfl⟩ := map_eq_ok_iff.1 hx
    split
    · exact avoids_true hall
    · exact avoids_iff.2 ⟨h.kind_ne, avoids_withoutBlockersAll (fun _ => h.child) ih hout⟩
  | exactlyOneOf es ih | atMostOneOf es ih =>
    obtain ⟨out, hout, hkeep⟩ := bind_eq_ok_iff.1 hx
    obtain ⟨_, rfl⟩ := keepWhole_eq_ok_iff.1 hkeep
    exact avoids_iff.2 ⟨h.kind_ne, avoids_withoutBlockersAll (fun _ => h.child) ih hout⟩
  | package atom blocking =>
    obtain rfl := Except.ok.inj hx
    split
    · exact avoids_true hall
    · exact h

/-! ## Expressions that leave no choice -/

/-- A choice between two members or more grants nothing yet. -/
theorem not_granted_anyOf {es : List Expr} (h : 2 ≤ es.length) :
    ¬(anyOf es).Granted assign := by
  rintro ⟨atoms, hatoms, _⟩
  simp [decidedAtoms, h] at hatoms

/-- A leaf is granted just when it holds. -/
theorem granted_package_iff {atom : Atom} {blocking : Blocking} :
    (package atom blocking).Granted assign ↔ leafHolds assign atom blocking = true := by
  refine ⟨Granted.leafHolds, fun h => ⟨_, rfl, ?_⟩⟩
  cases hblocked : blocking.isBlocked with
  | true => simp
  | false => simpa [leafHolds, hblocked] using h

/-- Where the atoms of an expression are told, they are all true exactly when those of its opened
members are. -/
theorem granted_iff_of_decidedAtomsAll {e : Expr} {atoms : List Atom}
    (h : decidedAtomsAll e.allOfChildren = .ok atoms) :
    e.Granted assign ↔ ∀ atom ∈ atoms, assign atom = true := by
  rw [granted_iff_forall_allOfChildren, ← forall_granted_iff, h]
  simp

/-- A normal form that has no conditions, leaves no choice and is not false holds exactly when its
atoms are true.  Any group in it but the all-of groups would have two members and leave a
choice. -/
theorem holds_iff_granted {e : Expr} (h : e.IsNormal) (hdecided : e.Avoids .useConditional)
    (hfalse : e ≠ false_) (hchoice : e.Granted fun _ => true) (flags : NameSet) :
    e.holds (leafHolds assign) flags = true ↔ e.Granted assign := by
  induction e with
  | allOf es ih =>
    obtain ⟨hreduced, hchildren⟩ := isNormal_allOf_iff.1 h
    have hnone : false_ ∉ es := by
      rcases hreduced with rfl | ⟨_, hnone, _⟩
      · exact List.not_mem_nil
      · exact hnone
    rw [holds_allOf_iff, granted_allOf_iff]
    refine forall₂_congr fun c hc => ih c hc (hchildren c hc) (hdecided.child hc) ?_ ?_
    · exact fun heq => hnone (heq ▸ hc)
    · exact granted_allOf_iff.1 hchoice c hc
  | anyOf es ih =>
    obtain ⟨rfl | ⟨htwo, _⟩, _⟩ := isNormal_anyOf_iff.1 h
    · exact absurd rfl hfalse
    · exact absurd hchoice (not_granted_anyOf htwo)
  | exactlyOneOf es ih =>
    exact absurd hchoice (not_granted_exactlyOneOf (isNormal_exactlyOneOf_iff.1 h).1.1)
  | atMostOneOf es ih =>
    exact absurd hchoice (not_granted_atMostOneOf (isNormal_atMostOneOf_iff.1 h).1.1)
  | useConditional flag expect es ih => exact absurd rfl hdecided.kind_ne
  | package atom blocking => exact granted_package_iff.symm

end Expr

/-! ## Whole values -/

namespace Spec

/-- Whether packages satisfy a value when its blocked leaves count as true. -/
def isMetBy (d : Spec) (packages : List ConcretePackage) (flags : NameSet) : Bool :=
  d.asExpr.holds (Expr.leafHolds fun atom => packages.any atom.admits) flags

/-- Whether a value holds for no truth values of its atoms, its blocked leaves counted as true. -/
def IsUnsatisfiable (d : Spec) : Prop :=
  ∀ assign flags, d.asExpr.holds (Expr.leafHolds assign) flags = false

/-- A dependency simplifies to the false constant if the expression for it does. -/
theorem simplify_eq_false_iff {d : Spec} :
    d.simplify = ⟨[Expr.false_]⟩ ↔ d.asExpr.simplify = Expr.false_ := by
  constructor
  · intro h
    have hopen : d.asExpr.simplify.allOfChildren = [Expr.false_] := congrArg Spec.children h
    rw [← Expr.simplify_allOf_allOfChildren (Expr.isNormal_simplify d.asExpr), hopen]
    rfl
  · intro h
    rw [simplify, h]
    rfl

/-- What is left of a value and simplified holds as the value does. -/
theorem holds_simplify_withoutBlockers {d left : Spec} (h : d.withoutBlockers = .ok left)
    (assign : Atom → Bool) (flags : NameSet) :
    left.asExpr.simplify.holds (Expr.leafHolds assign) flags =
      d.asExpr.holds (Expr.leafHolds assign) flags := by
  rw [Expr.holds_simplify, Expr.holds_withoutBlockers (withoutBlockers_eq_ok_iff.1 h)]
  refine Expr.holds_congr_of_leaves (fun leaf _ => ?_) flags
  simp [Expr.leafHolds]

/-- Where a value is made into a list of atoms, packages meet the value exactly when each atom
admits one of them, unless the value is unsatisfiable.  It is so when it is simplified to the
constant false, and then the list is empty. -/
theorem isMetBy_iff_of_decidedAtoms {d left : Spec} {flags : NameSet} {atoms : List Atom}
    (hleft : (d.decideUse flags).withoutBlockers = .ok left)
    (hatoms : left.simplify.decidedAtoms = .ok atoms) :
    (¬ (d.decideUse flags).IsUnsatisfiable → ∀ packages others,
      (d.decideUse flags).isMetBy packages others = true ↔
        ∀ atom ∈ atoms, packages.any atom.admits = true) ∧
    ((d.decideUse flags).IsUnsatisfiable ↔ left.simplify = ⟨[Expr.false_]⟩) ∧
    ((d.decideUse flags).IsUnsatisfiable → atoms = []) := by
  have hnormal := Expr.isNormal_simplify left.asExpr
  have havoids : left.asExpr.simplify.Avoids .useConditional :=
    Expr.avoids_simplify (by decide) (by decide)
      (Expr.avoids_withoutBlockers (by decide) (Expr.avoids_decideUse flags d.asExpr)
        (withoutBlockers_eq_ok_iff.1 hleft))
  have hlisted : ∀ assign : Atom → Bool,
      left.asExpr.simplify.Granted assign ↔ ∀ atom ∈ atoms, assign atom = true :=
    fun assign => Expr.granted_iff_of_decidedAtomsAll hatoms
  have hholds : left.asExpr.simplify ≠ Expr.false_ → ∀ assign others,
      (d.decideUse flags).asExpr.holds (Expr.leafHolds assign) others = true ↔
        ∀ atom ∈ atoms, assign atom = true := by
    intro hne assign others
    rw [← holds_simplify_withoutBlockers hleft, ← hlisted]
    exact Expr.holds_iff_granted hnormal havoids hne ((hlisted _).2 fun _ _ => rfl) others
  have hunsatisfiable : (d.decideUse flags).IsUnsatisfiable ↔
      left.asExpr.simplify = Expr.false_ := by
    constructor
    · intro h
      by_contra hne
      have htrue := (hholds hne (fun _ => true) .empty).2 fun _ _ => rfl
      exact absurd (htrue.symm.trans (h _ _)) nofun
    · intro h assign others
      rw [← holds_simplify_withoutBlockers hleft, h, Expr.holds_false]
  refine ⟨fun h packages others => ?_, hunsatisfiable.trans simplify_eq_false_iff.symm, fun h => ?_⟩
  · exact hholds (mt hunsatisfiable.2 h) _ others
  · rw [decidedAtoms, simplify_eq_false_iff.2 (hunsatisfiable.1 h)] at hatoms
    exact (Except.ok.inj hatoms).symm

/-- A package that a flag asks for, a package that is forbidden, and one that is always asked
for. -/
def sampleSecured : Spec :=
  ⟨[.useConditional "ssl" true [.package (.ofName "dev-libs/openssl") .none],
    .package (.ofName "dev-libs/libressl") .weak, .package (.ofName "sys-libs/zlib") .none]⟩

/-- With the flag it asks for the two packages and nothing else. -/
theorem isMetBy_sampleSecured :
    ∃ left, (sampleSecured.decideUse (.ofList ["ssl"])).withoutBlockers = .ok left ∧
      left.simplify.decidedAtoms =
        .ok [.ofName "dev-libs/openssl", .ofName "sys-libs/zlib"] ∧
      ∀ packages others,
        (sampleSecured.decideUse (.ofList ["ssl"])).isMetBy packages others = true ↔
          ∀ atom ∈ [Atom.ofName "dev-libs/openssl", .ofName "sys-libs/zlib"],
            packages.any atom.admits = true := by
  have hleft : (sampleSecured.decideUse (.ofList ["ssl"])).withoutBlockers =
      .ok ⟨[.allOf [.package (.ofName "dev-libs/openssl") .none],
        .package (.ofName "sys-libs/zlib") .none]⟩ := by rfl
  have hatoms : (⟨[.allOf [.package (.ofName "dev-libs/openssl") .none],
      .package (.ofName "sys-libs/zlib") .none]⟩ : Spec).simplify.decidedAtoms =
        .ok [.ofName "dev-libs/openssl", .ofName "sys-libs/zlib"] := by rfl
  obtain ⟨hexact, hunsatisfiable, _⟩ := isMetBy_iff_of_decidedAtoms hleft hatoms
  exact ⟨_, hleft, hatoms, hexact (mt hunsatisfiable.1 (by decide))⟩

/-- A choice without alternatives. -/
def sampleVain : Spec :=
  ⟨[.anyOf []]⟩

/-- It can be read and is made into an empty list of atoms, and no packages meet it. -/
theorem isMetBy_sampleVain :
    Spec.parse "|| ( )" = .ok sampleVain ∧
      (sampleVain.decideUse .empty).withoutBlockers = .ok sampleVain ∧
      sampleVain.simplify.decidedAtoms = .ok [] ∧
      ∀ packages : List ConcretePackage,
        (∀ atom ∈ ([] : List Atom), packages.any atom.admits = true) ∧
          ¬ (sampleVain.decideUse .empty).isMetBy packages .empty = true :=
  ⟨rfl, rfl, rfl, fun _ => ⟨nofun, nofun⟩⟩

end Spec
end Dependency
end EbuildGraph
