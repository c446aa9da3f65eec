import EbuildGraph.Atom.Basic

/-!
# Dependency expressions

The value of a dependency variable is a tree: package atoms, blocked atoms,
groups, and groups that depend on a USE flag.

Main definitions:

- {lit}`Expr`: a node of the tree.
- {lit}`Spec`: a whole value, the children of an implicit all-of group.
- {lit}`Expr.text`, {lit}`Spec.text`: how they are written.
-/

namespace EbuildGraph
namespace Dependency

/-- Whether an atom asks for a package or forbids it. -/
inductive Blocking where
  | none
  | weak
  | strong
deriving DecidableEq, Repr

namespace Blocking

/-- The number of exclamation marks. -/
def count : Blocking → Nat
  | none => 0
  | weak => 1
  | strong => 2

/-- The blocking with that number of exclamation marks. -/
def ofCount? : Nat → Option Blocking
  | 0 => some none
  | 1 => some weak
  | 2 => some strong
  | _ => Option.none

/-- The exclamation marks. -/
def text : Blocking → String
  | none => ""
  | weak => "!"
  | strong => "!!"

/-- Whether the package is forbidden. -/
def isBlocked : Blocking → Bool
  | none => false
  | _ => true

end Blocking

/-- A dependency expression.  The empty all-of group is the constant true, the
empty any-of group the constant false. -/
inductive Expr where
  | allOf (children : List Expr)
  | anyOf (children : List Expr)
  | exactlyOneOf (children : List Expr)
  | atMostOneOf (children : List Expr)
  | useConditional (flag : String) (expect : Bool) (children : List Expr)
  | package (atom : Atom) (blocking : Blocking)

namespace Expr

mutual

/-- Whether two expressions are equal. -/
def equal : Expr → Expr → Bool
  | allOf as, allOf bs => equalAll as bs
  | anyOf as, anyOf bs => equalAll as bs
  | exactlyOneOf as, exactlyOneOf bs => equalAll as bs
  | atMostOneOf as, atMostOneOf bs => equalAll as bs
  | useConditional f e as, useConditional g d bs => f == g && e == d && equalAll as bs
  | package a i, package b j => a == b && i == j
  | _, _ => false

/-- Whether two lists of expressions are equal. -/
def equalAll : List Expr → List Expr → Bool
  | [], [] => true
  | a :: as, b :: bs => equal a b && equalAll as bs
  | _, _ => false

end

mutual

theorem equal_iff (a b : Expr) : equal a b = true ↔ a = b := by
  cases a with
  | allOf as => cases b <;> simp [equal, equalAll_iff as]
  | anyOf as => cases b <;> simp [equal, equalAll_iff as]
  | exactlyOneOf as => cases b <;> simp [equal, equalAll_iff as]
  | atMostOneOf as => cases b <;> simp [equal, equalAll_iff as]
  | useConditional f e as => cases b <;> simp [equal, equalAll_iff as, and_assoc]
  | package x i => cases b <;> simp [equal]

theorem equalAll_iff (as bs : List Expr) : equalAll as bs = true ↔ as = bs := by
  cases as with
  | nil => cases bs <;> simp [equalAll]
  | cons a as =>
    cases bs with
    | nil => simp [equalAll]
    | cons b bs => simp [equalAll, equal_iff a b, equalAll_iff as bs]

end

instance : DecidableEq Expr := fun a b => decidable_of_iff (equal a b = true) (equal_iff a b)

/-- The expression that is always satisfied. -/
def true_ : Expr := allOf []

/-- The expression that is never satisfied. -/
def false_ : Expr := anyOf []

instance : Inhabited Expr := ⟨true_⟩

/-- Whether an expression is the constant true. -/
def isTrue : Expr → Bool
  | allOf [] => true
  | _ => false

/-- Whether an expression is the constant false. -/
def isFalse : Expr → Bool
  | anyOf [] => true
  | _ => false

/-- The members of an all-of group; any other expression counts as a group of one. -/
def allOfChildren : Expr → List Expr
  | allOf children => children
  | e => [e]

/-- A group as it is written: an operator and the members between parentheses. -/
def groupText (operator : String) (members : List String) : String :=
  operator ++ (if members.isEmpty then "( )" else "( " ++ String.intercalate " " members ++ " )")

/-- What is written before the group of a USE flag. -/
def conditionText (flag : String) (expect : Bool) : String :=
  (if expect then "" else "!") ++ flag ++ "? "

mutual

/-- An expression as it is written. -/
def text : Expr → String
  | allOf children => groupText "" (texts children)
  | anyOf children => groupText "|| " (texts children)
  | exactlyOneOf children => groupText "^^ " (texts children)
  | atMostOneOf children => groupText "?? " (texts children)
  | useConditional flag expect children =>
    groupText (conditionText flag expect) (texts children)
  | package atom blocking => blocking.text ++ atom.text

/-- Expressions as they are written. -/
def texts : List Expr → List String
  | [] => []
  | e :: rest => e.text :: texts rest

end

end Expr

/-- The value of a dependency variable. -/
structure Spec where
  children : List Expr
deriving DecidableEq, Inhabited

namespace Spec

/-- The value as a single all-of group. -/
def asExpr (d : Spec) : Expr := .allOf d.children

/-- The value that consists of one expression; an all-of group is opened. -/
def ofExpr (e : Expr) : Spec := ⟨e.allOfChildren⟩

/-- The value as it is written. -/
def text (d : Spec) : String :=
  String.intercalate " " (Expr.texts d.children)

/-- Whether nothing is asked for. -/
def isEmpty (d : Spec) : Bool := d.children.isEmpty

end Spec

end Dependency
end EbuildGraph
