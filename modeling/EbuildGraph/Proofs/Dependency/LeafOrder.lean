import EbuildGraph.Proofs.Dependency.Filter

/-!
# The order of leaves

Which alternative is the first one and which package is resolved first is told by the order of the
leaves, so it matters that no pass over a value adds a leaf, doubles one or moves one past another.
Each pass leaves members out or opens groups in their place.

Main results:

- Theorem {lit}`Expr.leaves_withoutBlockers_sublist`: what the removal of blockers keeps of the
  leaves.
- Theorem {lit}`Spec.passes_keep_leaf_order`: what each pass keeps of the leaves of a value.
-/

namespace EbuildGraph
namespace Dependency
namespace Expr

/-- Members without the true constant have the leaves of the members, in order. -/
theorem leavesOfAll_dropTrue_sublist (members : List Expr) :
    (leavesOfAll (dropTrue members)).Sublist (leavesOfAll members) :=
  leavesOfAll_sublist List.filter_sublist

/-- Expressions keep the order of their leaves without blockers when each of them does. -/
theorem leavesOfAll_withoutBlockersAll_sublist {es out : List Expr}
    (h : ∀ e ∈ es, ∀ {x : Expr}, e.withoutBlockers = .ok x → x.leaves.Sublist e.leaves)
    (hout : withoutBlockersAll es = .ok out) :
    (leavesOfAll out).Sublist (leavesOfAll es) := by
  have hmembers := mapM_eq_ok_iff.1 ((withoutBlockersAll_eq_mapM es).symm.trans hout)
  clear hout
  induction hmembers with
  | nil => exact List.Sublist.refl _
  | @cons e x es out hx _ ih =>
    obtain ⟨he, hrest⟩ := List.forall_mem_cons.1 h
    exact (he hx).append (ih hrest)

/-- The removal of blockers keeps a subsequence of the leaves. -/
theorem leaves_withoutBlockers_sublist {e x : Expr} (h : e.withoutBlockers = .ok x) :
    x.leaves.Sublist e.leaves := by
  induction e generalizing x with
  | allOf es ih | useConditional flag expect es ih =>
    obtain ⟨out, hout, rfl⟩ := map_eq_ok_iff.1 h
    exact (leavesOfAll_dropTrue_sublist out).trans (leavesOfAll_withoutBlockersAll_sublist ih hout)
  | anyOf es ih =>
    obtain ⟨out, hout, rfl⟩ := map_eq_ok_iff.1 h
    split
    · exact List.nil_sublist _
    · exact leavesOfAll_withoutBlockersAll_sublist ih hout
  | exactlyOneOf es ih | atMostOneOf es ih =>
    obtain ⟨out, hout, hkeep⟩ := bind_eq_ok_iff.1 h
    obtain ⟨_, rfl⟩ := keepWhole_eq_ok_iff.1 hkeep
    exact leavesOfAll_withoutBlockersAll_sublist ih hout
  | package atom blocking =>
    obtain rfl := Except.ok.inj h
    split
    · exact List.nil_sublist _
    · exact List.Sublist.refl _

end Expr

namespace Spec

/-- Removing blockers keeps the order of the leaves. -/
theorem leaves_withoutBlockers_sublist {d left : Spec} (h : d.withoutBlockers = .ok left) :
    left.leaves.Sublist d.leaves :=
  Expr.leaves_withoutBlockers_sublist (withoutBlockers_eq_ok_iff.1 h)

/-- Keeping the part about a package keeps the order of the leaves. -/
theorem leaves_filterFor_sublist {d part : Spec} {name : String}
    (h : d.filterFor name = .ok part) : part.leaves.Sublist d.leaves := by
  rw [leaves_filterFor h]
  exact List.filter_sublist

/-- Every pass over a value keeps a subsequence of its leaves, and the atoms of a value that leaves
no choice are all its leaves that are not blocked, in their order. -/
theorem passes_keep_leaf_order (d : Spec) (flags : NameSet) (name : String) :
    (d.decideUse flags).leaves.Sublist d.leaves ∧ d.simplify.leaves.Sublist d.leaves ∧
      d.pickFirst.leaves.Sublist d.leaves ∧
      (∀ left, d.withoutBlockers = .ok left → left.leaves.Sublist d.leaves) ∧
      (∀ part, d.filterFor name = .ok part → part.leaves.Sublist d.leaves) ∧
      ∀ atoms, d.decidedAtoms = .ok atoms → atoms = d.atoms :=
  ⟨d.leaves_decideUse_sublist flags, d.leaves_simplify_sublist, d.leaves_pickFirst_sublist,
    fun _ => leaves_withoutBlockers_sublist, fun _ => leaves_filterFor_sublist,
    fun _ => decidedAtoms_eq_ok⟩

/-- A value without a choice: a package is forbidden, and two are asked for, one of them when a
flag is set. -/
def sampleOrdered : Spec :=
  ⟨[.allOf [.package (.ofName "d/d") .none, .package (.ofName "x/x") .strong],
    .useConditional "c" true [.package (.ofName "a/a") .none]]⟩

/-- The leaves of the sample stay in order when blockers are removed, when only one package is kept,
and when atoms are taken from it. -/
theorem passes_keep_sampleOrdered :
    (∃ left, sampleOrdered.withoutBlockers = .ok left ∧
      left.leaves.Sublist sampleOrdered.leaves) ∧
    (∃ part, sampleOrdered.filterFor "a/a" = .ok part ∧
      part.leaves.Sublist sampleOrdered.leaves) ∧
    ∃ atoms, sampleOrdered.decidedAtoms = .ok atoms ∧ atoms = sampleOrdered.atoms ∧
      atoms = [.ofName "d/d", .ofName "a/a"] := by
  obtain ⟨_, _, _, hblockers, hfilter, hatoms⟩ :=
    passes_keep_leaf_order sampleOrdered .empty "a/a"
  exact ⟨⟨_, rfl, hblockers _ rfl⟩, ⟨_, rfl, hfilter _ rfl⟩, ⟨_, rfl, hatoms _ rfl, rfl⟩⟩

end Spec
end Dependency
end EbuildGraph
