import EbuildGraph.Dependency.Leaves
import EbuildGraph.Dependency.Selection
import EbuildGraph.Proofs.Dependency.Folding
import EbuildGraph.Proofs.Dependency.Rewriting

/-!
# Leaves of rewritten expressions

The passes over a dependency expression only ever leave leaves out.  Simplification, the
choice among alternatives and the decision of conditions keep a subsequence of the leaves,
and the atoms that an expression without choice asks for are its leaves.

Main results:

- Theorems {lit}`Expr.leaves_decideUse_sublist`, {lit}`Expr.leaves_simplify_sublist` and
  {lit}`Expr.leaves_pickFirst_sublist`: what each pass keeps of the leaves.
- Theorem {lit}`Expr.decidedAtoms_eq_ok`: the atoms that are asked for are leaves.
- Theorem {lit}`Expr.holds_congr_of_leaves`: whether an expression holds is told by its leaves.
-/

namespace EbuildGraph
namespace Dependency
namespace Expr

/-! ## Leaves of lists -/

@[simp]
theorem leavesOfAll_nil : leavesOfAll [] = [] :=
  rfl

@[simp]
theorem leavesOfAll_cons (e : Expr) (rest : List Expr) :
    leavesOfAll (e :: rest) = e.leaves ++ leavesOfAll rest :=
  rfl

/-- A leaf of several expressions is a leaf of one of them. -/
theorem mem_leavesOfAll_iff {leaf : Atom × Blocking} {es : List Expr} :
    leaf ∈ leavesOfAll es ↔ ∃ e ∈ es, leaf ∈ e.leaves := by
  induction es with
  | nil => simp
  | cons e rest ih => simp [ih]

/-- The leaves of expressions come in the order of these. -/
theorem leavesOfAll_append (es fs : List Expr) :
    leavesOfAll (es ++ fs) = leavesOfAll es ++ leavesOfAll fs := by
  induction es with
  | nil => rfl
  | cons e rest ih => simp [ih]

/-- Fewer expressions in the same order have fewer leaves in the same order. -/
theorem leavesOfAll_sublist {es fs : List Expr} (h : es.Sublist fs) :
    (leavesOfAll es).Sublist (leavesOfAll fs) := by
  induction h with
  | slnil => exact List.Sublist.refl _
  | cons e _ ih => exact ih.trans (List.sublist_append_right e.leaves _)
  | cons_cons e _ ih => exact ih.append_left e.leaves

/-- A pass that keeps a subsequence of the leaves of each member does so for all. -/
theorem leavesOfAll_map_sublist {pass : Expr → Expr} {es : List Expr}
    (h : ∀ e ∈ es, (pass e).leaves.Sublist e.leaves) :
    (leavesOfAll (es.map pass)).Sublist (leavesOfAll es) := by
  induction es with
  | nil => exact List.Sublist.refl _
  | cons e rest ih =>
    exact (h e List.mem_cons_self).append
      (ih fun other hother => h other (List.mem_cons_of_mem e hother))

/-- What an expression asks for side by side has its leaves. -/
theorem leavesOfAll_allOfChildren (e : Expr) : leavesOfAll e.allOfChildren = e.leaves := by
  cases e <;> simp [allOfChildren, leaves]

/-- Opening the all-of groups among members keeps the leaves in order. -/
theorem leavesOfAll_openGroups (members : List Expr) :
    leavesOfAll (openGroups members) = leavesOfAll members := by
  induction members with
  | nil => rfl
  | cons e rest ih =>
    rw [openGroups, List.flatMap_cons, leavesOfAll_append, leavesOfAll_allOfChildren]
    exact congrArg (e.leaves ++ ·) ih

/-! ## Leaves of nodes -/

/-- The leaves of a child are leaves of the expression. -/
theorem leaves_subset_of_child {e c : Expr} (h : c ∈ e.children) : c.leaves ⊆ e.leaves := by
  intro leaf hleaf
  cases e with
  | package atom blocking => exact absurd h List.not_mem_nil
  | _ => exact mem_leavesOfAll_iff.2 ⟨c, h, hleaf⟩

/-- The leaves of a node are leaves of the expression. -/
theorem leaves_subset_of_mem_nodes {e x : Expr} (h : x ∈ e.nodes) : x.leaves ⊆ e.leaves := by
  induction e with
  | allOf es ih | anyOf es ih | exactlyOneOf es ih | atMostOneOf es ih
  | useConditional flag expect es ih =>
    rcases mem_nodes_iff.1 h with rfl | ⟨c, hc, hx⟩
    · exact List.Subset.refl _
    · exact List.Subset.trans (ih c hc hx) (leaves_subset_of_child hc)
  | package atom blocking =>
    rw [List.mem_singleton.1 h]
    exact List.Subset.refl _

/-! ## Truth of leaves -/

/-- Expressions only look at their own leaves. -/
theorem holds_congr_of_leaves {leaf leaf' : Atom → Blocking → Bool} {e : Expr}
    (h : ∀ l ∈ e.leaves, leaf l.1 l.2 = leaf' l.1 l.2) (flags : NameSet) :
    e.holds leaf flags = e.holds leaf' flags := by
  have hgroup : ∀ es : List Expr,
      (∀ e ∈ es, (∀ l ∈ e.leaves, leaf l.1 l.2 = leaf' l.1 l.2) →
        e.holds leaf flags = e.holds leaf' flags) →
      (∀ l ∈ leavesOfAll es, leaf l.1 l.2 = leaf' l.1 l.2) →
      holdsAll leaf flags es = holdsAll leaf' flags es := by
    intro es hes hleaves
    rw [holdsAll_eq_map, holdsAll_eq_map]
    refine List.map_congr_left fun e he => hes e he fun l hl => ?_
    exact hleaves l (mem_leavesOfAll_iff.2 ⟨e, he, hl⟩)
  induction e with
  | allOf es ih | anyOf es ih | exactlyOneOf es ih | atMostOneOf es ih
  | useConditional flag expect es ih => rw [holds, holds, hgroup es ih h]
  | package atom blocking => exact h (atom, blocking) List.mem_cons_self

/-! ## Folding -/

/-- A group that may be left out around one member has the leaves of its members. -/
theorem leaves_unwrapSingleton {group : List Expr → Expr}
    (hgroup : ∀ es, (group es).leaves = leavesOfAll es) (members : List Expr) :
    (unwrapSingleton group members).leaves = leavesOfAll members := by
  unfold unwrapSingleton
  split
  · simp
  · exact hgroup _

/-- Members without the false constant have the leaves of the members, in order. -/
theorem leavesOfAll_dropFalse_sublist (members : List Expr) :
    (leavesOfAll (dropFalse members)).Sublist (leavesOfAll members) :=
  leavesOfAll_sublist List.filter_sublist

/-- Folding an all-of group adds no leaf and keeps the order. -/
theorem leaves_foldAllOf_sublist (members : List Expr) :
    (foldAllOf members).leaves.Sublist (leavesOfAll members) := by
  unfold foldAllOf
  split
  · exact List.nil_sublist _
  · rw [leaves_unwrapSingleton fun _ => rfl, leavesOfAll_openGroups]

/-- Folding an any-of group adds no leaf and keeps the order. -/
theorem leaves_foldAnyOf_sublist (members : List Expr) :
    (foldAnyOf members).leaves.Sublist (leavesOfAll members) := by
  unfold foldAnyOf
  split
  · exact List.nil_sublist _
  · rw [leaves_unwrapSingleton fun _ => rfl]
    exact leavesOfAll_dropFalse_sublist members

/-- Folding an exactly-one-of group adds no leaf and keeps the order. -/
theorem leaves_foldExactlyOneOf_sublist (members : List Expr) :
    (foldExactlyOneOf members).leaves.Sublist (leavesOfAll members) := by
  have hdrop := leavesOfAll_dropFalse_sublist members
  unfold foldExactlyOneOf
  dsimp only
  split
  · exact List.nil_sublist _
  split
  · exact List.nil_sublist _
  · next e hone =>
    split
    · exact List.nil_sublist _
    · rw [hone] at hdrop
      simpa using hdrop
  · exact hdrop

/-- Folding an at-most-one-of group adds no leaf and keeps the order. -/
theorem leaves_foldAtMostOneOf_sublist (members : List Expr) :
    (foldAtMostOneOf members).leaves.Sublist (leavesOfAll members) := by
  unfold foldAtMostOneOf
  dsimp only
  split
  · exact List.nil_sublist _
  split
  · exact List.nil_sublist _
  · exact leavesOfAll_dropFalse_sublist members

/-- Folding a conditional group adds no leaf and keeps the order. -/
theorem leaves_foldConditional_sublist (flag : String) (expect : Bool) (members : List Expr) :
    (foldConditional flag expect members).leaves.Sublist (leavesOfAll members) := by
  unfold foldConditional
  dsimp only
  split
  · exact List.nil_sublist _
  · rw [leaves, leavesOfAll_allOfChildren]
    exact leaves_foldAllOf_sublist members

/-! ## Passes -/

/-- Simplification keeps a subsequence of the leaves. -/
theorem leaves_simplify_sublist (e : Expr) : e.simplify.leaves.Sublist e.leaves := by
  induction e with
  | allOf es ih =>
    rw [simplify_allOf]
    exact (leaves_foldAllOf_sublist _).trans (leavesOfAll_map_sublist ih)
  | anyOf es ih =>
    rw [simplify_anyOf]
    exact (leaves_foldAnyOf_sublist _).trans (leavesOfAll_map_sublist ih)
  | exactlyOneOf es ih =>
    rw [simplify_exactlyOneOf]
    exact (leaves_foldExactlyOneOf_sublist _).trans (leavesOfAll_map_sublist ih)
  | atMostOneOf es ih =>
    rw [simplify_atMostOneOf]
    exact (leaves_foldAtMostOneOf_sublist _).trans (leavesOfAll_map_sublist ih)
  | useConditional flag expect es ih =>
    rw [simplify_useConditional]
    exact (leaves_foldConditional_sublist flag expect _).trans (leavesOfAll_map_sublist ih)
  | package atom blocking => exact List.Sublist.refl _

/-- The decision of conditions keeps a subsequence of the leaves. -/
theorem leaves_decideUse_sublist (flags : NameSet) (e : Expr) :
    (e.decideUse flags).leaves.Sublist e.leaves := by
  have hgroup : ∀ es : List Expr, (∀ e ∈ es, (e.decideUse flags).leaves.Sublist e.leaves) →
      (leavesOfAll (decideUseAll flags es)).Sublist (leavesOfAll es) := by
    intro es h
    rw [decideUseAll_eq_map]
    exact leavesOfAll_map_sublist h
  induction e with
  | allOf es ih => exact hgroup es ih
  | anyOf es ih => exact hgroup es ih
  | exactlyOneOf es ih => exact hgroup es ih
  | atMostOneOf es ih => exact hgroup es ih
  | useConditional flag expect es ih =>
    rw [decideUse]
    split
    · exact hgroup es ih
    · exact List.nil_sublist _
  | package atom blocking => exact List.Sublist.refl _

/-- The choice among alternatives keeps a subsequence of the leaves. -/
theorem leaves_pickFirst_sublist (e : Expr) : e.pickFirst.leaves.Sublist e.leaves := by
  have hgroup : ∀ es : List Expr, (∀ e ∈ es, e.pickFirst.leaves.Sublist e.leaves) →
      (leavesOfAll (pickFirstAll es)).Sublist (leavesOfAll es) := by
    intro es h
    rw [pickFirstAll_eq_map]
    exact leavesOfAll_map_sublist h
  induction e with
  | allOf es ih => exact hgroup es ih
  | anyOf es ih =>
    have hall := hgroup es ih
    rw [pickFirst]
    split
    · exact List.nil_sublist _
    · next first rest hfirst =>
      rw [hfirst] at hall
      exact (List.sublist_append_left first.leaves _).trans hall
  | exactlyOneOf es ih => exact hgroup es ih
  | atMostOneOf es ih => exact hgroup es ih
  | useConditional flag expect es ih => exact hgroup es ih
  | package atom blocking => exact List.Sublist.refl _

/-- A leaf of an expression with its leaves replaced is a leaf of some replacement. -/
theorem mem_leaves_substitute {f : Atom → Blocking → Expr} {e : Expr} {leaf : Atom × Blocking}
    (h : leaf ∈ (e.substitute f).leaves) :
    ∃ replaced ∈ e.leaves, leaf ∈ (f replaced.1 replaced.2).leaves := by
  have hgroup : ∀ es : List Expr,
      (∀ e ∈ es, leaf ∈ (e.substitute f).leaves →
        ∃ replaced ∈ e.leaves, leaf ∈ (f replaced.1 replaced.2).leaves) →
      leaf ∈ leavesOfAll (substituteAll f es) →
      ∃ replaced ∈ leavesOfAll es, leaf ∈ (f replaced.1 replaced.2).leaves := by
    intro es hes hleaf
    rw [substituteAll_eq_map, mem_leavesOfAll_iff] at hleaf
    obtain ⟨c, hc, hleaf⟩ := hleaf
    obtain ⟨e, he, rfl⟩ := List.mem_map.1 hc
    obtain ⟨replaced, hreplaced, hin⟩ := hes e he hleaf
    exact ⟨replaced, mem_leavesOfAll_iff.2 ⟨e, he, hreplaced⟩, hin⟩
  induction e with
  | allOf es ih => exact hgroup es ih h
  | anyOf es ih => exact hgroup es ih h
  | exactlyOneOf es ih => exact hgroup es ih h
  | atMostOneOf es ih => exact hgroup es ih h
  | useConditional flag expect es ih => exact hgroup es ih h
  | package atom blocking => exact ⟨(atom, blocking), by simp [leaves], h⟩

/-- The leaves that are not blocked. -/
def wantedAtoms (leaves : List (Atom × Blocking)) : List Atom :=
  (leaves.filter fun leaf => !leaf.2.isBlocked).map Prod.fst

theorem wantedAtoms_append (xs ys : List (Atom × Blocking)) :
    wantedAtoms (xs ++ ys) = wantedAtoms xs ++ wantedAtoms ys := by
  simp [wantedAtoms]

/-- The atoms taken from expressions are those of their leaves when they are for each expression. -/
theorem decidedAtomsAll_eq_ok {es : List Expr} {atoms : List Atom}
    (h : ∀ e ∈ es, ∀ found, e.decidedAtoms = .ok found → found = wantedAtoms e.leaves)
    (hatoms : decidedAtomsAll es = .ok atoms) : atoms = wantedAtoms (leavesOfAll es) := by
  induction es generalizing atoms with
  | nil => exact (Except.ok.inj hatoms).symm
  | cons e rest ih =>
    rw [decidedAtomsAll] at hatoms
    split at hatoms
    · cases hatoms
    next found hfound =>
    obtain ⟨others, hothers, rfl⟩ := map_eq_ok_iff.1 hatoms
    rw [leavesOfAll_cons, wantedAtoms_append, ← h e List.mem_cons_self found hfound,
      ← ih (fun other hother => h other (List.mem_cons_of_mem e hother)) hothers]

/-- The atoms that an expression without choice asks for are its leaves. -/
theorem decidedAtoms_eq_ok {e : Expr} {atoms : List Atom} (h : e.decidedAtoms = .ok atoms) :
    atoms = wantedAtoms e.leaves := by
  induction e generalizing atoms with
  | allOf es ih => exact decidedAtomsAll_eq_ok (fun e he _ => ih e he) h
  | anyOf es ih =>
    rw [decidedAtoms] at h
    split at h
    · cases h
    · exact decidedAtomsAll_eq_ok (fun e he _ => ih e he) h
  | exactlyOneOf es ih =>
    rw [decidedAtoms] at h
    split at h
    · cases h
    · exact decidedAtomsAll_eq_ok (fun e he _ => ih e he) h
  | atMostOneOf es _ =>
    rw [decidedAtoms] at h
    split at h
    · next hempty =>
      rw [List.isEmpty_iff.1 hempty]
      exact (Except.ok.inj h).symm
    · cases h
  | useConditional flag expect es ih => exact decidedAtomsAll_eq_ok (fun e he _ => ih e he) h
  | package atom blocking =>
    rw [← Except.ok.inj h]
    cases hblocked : blocking.isBlocked <;> simp [leaves, wantedAtoms, hblocked]

end Expr

/-! ## Whole values -/

namespace Spec

/-- Simplifying a dependency adds no leaf and keeps the order. -/
theorem leaves_simplify_sublist (d : Spec) : d.simplify.leaves.Sublist d.leaves := by
  have hopen : d.simplify.leaves = d.asExpr.simplify.leaves :=
    Expr.leavesOfAll_allOfChildren d.asExpr.simplify
  rw [hopen]
  exact Expr.leaves_simplify_sublist d.asExpr

/-- Deciding the conditions of a dependency adds no leaf and keeps the order. -/
theorem leaves_decideUse_sublist (flags : NameSet) (d : Spec) :
    (d.decideUse flags).leaves.Sublist d.leaves :=
  Expr.leaves_decideUse_sublist flags d.asExpr

/-- Taking first alternatives adds no leaf and keeps the order. -/
theorem leaves_pickFirst_sublist (d : Spec) : d.pickFirst.leaves.Sublist d.leaves :=
  Expr.leaves_pickFirst_sublist d.asExpr

/-- A leaf behind a replacement comes from what a leaf is replaced with. -/
theorem mem_leaves_substitute {f : Atom → Blocking → Expr} {d : Spec} {leaf : Atom × Blocking}
    (h : leaf ∈ (d.substitute f).leaves) :
    ∃ replaced ∈ d.leaves, leaf ∈ (f replaced.1 replaced.2).leaves := by
  have hleaf : leaf ∈ (d.asExpr.substitute f).leaves := h
  exact Expr.mem_leaves_substitute hleaf

/-- The atoms taken from a dependency are those of its leaves that do not block. -/
theorem decidedAtoms_eq_ok {d : Spec} {atoms : List Atom} (h : d.decidedAtoms = .ok atoms) :
    atoms = d.atoms :=
  Expr.decidedAtomsAll_eq_ok (fun _ _ _ => Expr.decidedAtoms_eq_ok) h

end Spec
end Dependency
end EbuildGraph
