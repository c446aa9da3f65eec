import EbuildGraph.Dependency.Basic

/-!
# Nodes of a dependency expression

An expression is a tree whose groups hold lists of trees.  This module gives the
induction that follows that nesting, the list of all nodes of a tree, and what it means
that no node is of a given kind.

Main results:

- Theorem {lit}`Expr.memberInduction`: what passes from the children of every group to
  the group holds of every expression.
- Theorem {lit}`Expr.forall_mem_nodes_iff`: a property of all nodes is one of the root
  and of all nodes of its children.
-/

namespace EbuildGraph
namespace Dependency
namespace Expr

/-! ## Induction on the children of groups -/

/-- Induction on an expression.  A property of a group may be proved from the property
of each of its children. -/
@[elab_as_elim, induction_eliminator]
theorem memberInduction {motive : Expr → Prop}
    (allOf : ∀ children, (∀ e ∈ children, motive e) → motive (allOf children))
    (anyOf : ∀ children, (∀ e ∈ children, motive e) → motive (anyOf children))
    (exactlyOneOf : ∀ children, (∀ e ∈ children, motive e) → motive (exactlyOneOf children))
    (atMostOneOf : ∀ children, (∀ e ∈ children, motive e) → motive (atMostOneOf children))
    (useConditional : ∀ flag expect children, (∀ e ∈ children, motive e) →
      motive (useConditional flag expect children))
    (package : ∀ atom blocking, motive (package atom blocking)) (e : Expr) : motive e := by
  refine @Expr.rec motive (fun es => ∀ e ∈ es, motive e) allOf anyOf exactlyOneOf atMostOneOf
    useConditional package ?_ ?_ e
  · intro e he
    exact absurd he List.not_mem_nil
  · intro head rest hhead hrest
    exact List.forall_mem_cons.2 ⟨hhead, hrest⟩

/-! ## Kinds, children and nodes -/

/-- The constructors of expressions. -/
inductive Kind where
  | allOf
  | anyOf
  | exactlyOneOf
  | atMostOneOf
  | useConditional
  | package
deriving DecidableEq

/-- The constructor of an expression. -/
def kind : Expr → Kind
  | allOf _ => .allOf
  | anyOf _ => .anyOf
  | exactlyOneOf _ => .exactlyOneOf
  | atMostOneOf _ => .atMostOneOf
  | useConditional _ _ _ => .useConditional
  | package _ _ => .package

/-- The expressions directly below an expression. -/
def children : Expr → List Expr
  | allOf children => children
  | anyOf children => children
  | exactlyOneOf children => children
  | atMostOneOf children => children
  | useConditional _ _ children => children
  | package _ _ => []

mutual

/-- An expression and all expressions below it, from the root down. -/
def nodes : Expr → List Expr
  | allOf children => allOf children :: nodesOfAll children
  | anyOf children => anyOf children :: nodesOfAll children
  | exactlyOneOf children => exactlyOneOf children :: nodesOfAll children
  | atMostOneOf children => atMostOneOf children :: nodesOfAll children
  | useConditional flag expect children =>
    useConditional flag expect children :: nodesOfAll children
  | package atom blocking => [package atom blocking]

/-- The nodes of each expression of a list. -/
def nodesOfAll : List Expr → List Expr
  | [] => []
  | e :: rest => e.nodes ++ nodesOfAll rest

end

/-- A node of several expressions is a node of one of them. -/
theorem mem_nodesOfAll_iff {x : Expr} {es : List Expr} :
    x ∈ nodesOfAll es ↔ ∃ e ∈ es, x ∈ e.nodes := by
  induction es with
  | nil => simp [nodesOfAll]
  | cons e rest ih => simp [nodesOfAll, ih]

/-- A node of an expression is the expression or a node of one of its children. -/
theorem mem_nodes_iff {x e : Expr} : x ∈ e.nodes ↔ x = e ∨ ∃ c ∈ e.children, x ∈ c.nodes := by
  cases e <;> simp [nodes, children, mem_nodesOfAll_iff]

/-- A property of all nodes is a property of the root and of all nodes of its children. -/
theorem forall_mem_nodes_iff {p : Expr → Prop} {e : Expr} :
    (∀ x ∈ e.nodes, p x) ↔ p e ∧ ∀ c ∈ e.children, ∀ x ∈ c.nodes, p x := by
  constructor
  · intro h
    refine ⟨h e (mem_nodes_iff.2 (Or.inl rfl)), ?_⟩
    intro c hc x hx
    exact h x (mem_nodes_iff.2 (Or.inr ⟨c, hc, hx⟩))
  · rintro ⟨hroot, hchildren⟩ x hx
    rcases mem_nodes_iff.1 hx with rfl | ⟨c, hc, hxc⟩
    · exact hroot
    · exact hchildren c hc x hxc

/-! ## Kinds that do not occur -/

/-- No node of the expression is of the given kind. -/
def Avoids (e : Expr) (k : Kind) : Prop :=
  ∀ x ∈ e.nodes, x.kind ≠ k

instance (e : Expr) (k : Kind) : Decidable (e.Avoids k) :=
  inferInstanceAs (Decidable (∀ x ∈ e.nodes, x.kind ≠ k))

/-- An expression has no group of a kind if it is none and its children have none. -/
theorem avoids_iff {e : Expr} {k : Kind} :
    e.Avoids k ↔ e.kind ≠ k ∧ ∀ c ∈ e.children, c.Avoids k :=
  forall_mem_nodes_iff

theorem Avoids.kind_ne {e : Expr} {k : Kind} (h : e.Avoids k) : e.kind ≠ k :=
  (avoids_iff.1 h).1

/-- The children of an expression have no groups of a kind that it lacks. -/
theorem Avoids.child {e c : Expr} {k : Kind} (h : e.Avoids k) (hc : c ∈ e.children) :
    c.Avoids k :=
  (avoids_iff.1 h).2 c hc

/-! ## The two constants -/

theorem isTrue_iff {e : Expr} : e.isTrue = true ↔ e = true_ := by
  rcases e with (_ | _) | _ | _ | _ | _ | _ <;> simp [isTrue, true_]

theorem isFalse_iff {e : Expr} : e.isFalse = true ↔ e = false_ := by
  rcases e with _ | (_ | _) | _ | _ | _ | _ <;> simp [isFalse, false_]

@[simp] theorem true_ne_false : true_ ≠ false_ := by
  simp [true_, false_]

@[simp] theorem false_ne_true : false_ ≠ true_ := by
  simp [true_, false_]

end Expr
end Dependency
end EbuildGraph
