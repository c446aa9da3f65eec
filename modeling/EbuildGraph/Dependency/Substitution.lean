import EbuildGraph.Dependency.Basic
import EbuildGraph.Error

/-!
# Replacing leaves

Main definitions:

- {lit}`Expr.substitute`, {lit}`Spec.substitute`: every leaf replaced by an expression.
- {lit}`Expr.trySubstitute`, {lit}`Spec.trySubstitute`: the same where the
  replacement may fail; the leftmost failure counts.
-/

namespace EbuildGraph
namespace Dependency

namespace Expr

mutual

/-- The expression with every leaf replaced. -/
def substitute (f : Atom → Blocking → Expr) : Expr → Expr
  | allOf children => allOf (substituteAll f children)
  | anyOf children => anyOf (substituteAll f children)
  | exactlyOneOf children => exactlyOneOf (substituteAll f children)
  | atMostOneOf children => atMostOneOf (substituteAll f children)
  | useConditional flag expect children =>
    useConditional flag expect (substituteAll f children)
  | package atom blocking => f atom blocking

/-- Each expression of a list with every leaf replaced. -/
def substituteAll (f : Atom → Blocking → Expr) : List Expr → List Expr
  | [] => []
  | e :: rest => e.substitute f :: substituteAll f rest

end

theorem substituteAll_eq_map (f : Atom → Blocking → Expr) (es : List Expr) :
    substituteAll f es = es.map (substitute f) := by
  induction es with
  | nil => rfl
  | cons e rest ih => simp [substituteAll, ih]

mutual

/-- The expression with every leaf replaced, unless a replacement fails. -/
def trySubstitute (f : Atom → Blocking → Except Error Expr) : Expr → Except Error Expr
  | allOf children => (trySubstituteAll f children).map allOf
  | anyOf children => (trySubstituteAll f children).map anyOf
  | exactlyOneOf children => (trySubstituteAll f children).map exactlyOneOf
  | atMostOneOf children => (trySubstituteAll f children).map atMostOneOf
  | useConditional flag expect children =>
    (trySubstituteAll f children).map (useConditional flag expect)
  | package atom blocking => f atom blocking

/-- Each expression of a list with every leaf replaced, unless a replacement fails. -/
def trySubstituteAll (f : Atom → Blocking → Except Error Expr) :
    List Expr → Except Error (List Expr)
  | [] => .ok []
  | e :: rest =>
    match e.trySubstitute f with
    | .error err => .error err
    | .ok e => (trySubstituteAll f rest).map (e :: ·)

end

end Expr

/-- The value with every leaf replaced. -/
def Spec.substitute (d : Spec) (f : Atom → Blocking → Expr) : Spec :=
  ⟨Expr.substituteAll f d.children⟩

/-- The value with every leaf replaced, unless a replacement fails. -/
def Spec.trySubstitute (d : Spec) (f : Atom → Blocking → Except Error Expr) :
    Except Error Spec :=
  (Expr.trySubstituteAll f d.children).map Spec.mk

end Dependency
end EbuildGraph
