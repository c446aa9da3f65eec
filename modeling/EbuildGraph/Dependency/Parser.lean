import EbuildGraph.Atom.Parser
import EbuildGraph.Dependency.Basic
import EbuildGraph.Grammar

/-!
# Reading dependency expressions

A value is a list of entries separated by layout.  An entry is a group in
parentheses, such a group behind an operator or behind the condition on a USE
flag, or a package atom.

Main definitions:

- {lit}`Spec.parse`: reads the value of a dependency variable.
-/

namespace EbuildGraph
namespace Dependency

/-- What a rule for some part of an expression reports. -/
abbrev Reading (α : Type) := Outcome ExpressionStop α

/-- A rule that has begun must go on; otherwise the named part is at fault. -/
def require {α : Type} (label : String) (input : List Char) (o : Reading α) : Reading α :=
  o.required ⟨some label, none⟩ input

/-- Whether a character may follow the first of a flag name. -/
def isUseFlagChar (c : Char) : Bool :=
  c.isAlphanum || c == '+' || c == '_' || c == '@' || c == '-'

/-- Splits a package token off the front.  It ends at a blank, and at a parenthesis
that is not between brackets. -/
def splitToken (brackets : Nat) : List Char → List Char × List Char
  | [] => ([], [])
  | c :: rest =>
    if Text.isBlank c || ((c == '(' || c == ')') && brackets == 0) then ([], c :: rest)
    else
      let depth := if c = '[' then brackets + 1 else if c = ']' then brackets - 1 else brackets
      let parts := splitToken depth rest
      (c :: parts.1, parts.2)

/-- The expression that a package token stands for. -/
def packageOfToken (token : List Char) : Except AtomFault Expr :=
  let name := token.dropWhile (· == '!')
  match Blocking.ofCount? (token.length - name.length) with
  | none => .error (.blockers (String.ofList token))
  | some blocking => (Atom.parse (String.ofList name)).map fun atom => .package atom blocking

/-- Reads a package atom, blocked or not. -/
def readPackage (cs : List Char) : Reading Expr :=
  match splitToken 0 cs with
  | ([], _) => .broken ⟨some "package atom", none⟩ cs
  | (token, rest) =>
    match packageOfToken token with
    | .ok e => .found e rest
    | .error fault => .broken ⟨some "package atom", some fault⟩ cs

/-- Reads a group in parentheses whose members the given rule reads. -/
def readGroup (members : List Char → Reading (List Expr)) : List Char → Reading (List Expr)
  | '(' :: cs =>
    (members cs).andThen fun children rest =>
      match skipLayout rest with
      | ')' :: rest => .found children rest
      | rest => .broken ⟨some "closing ')'", none⟩ rest
  | _ => .absent

/-- Reads a group behind an operator. -/
def readOperatorGroup (members : List Char → Reading (List Expr)) (operator : String)
    (cs : List Char) : Reading (List Expr) :=
  match operator.toList.isPrefixOf? cs with
  | none => .absent
  | some rest =>
    let rest := skipLayout rest
    require ("'" ++ operator ++ "' group") rest (readGroup members rest)

/-- Splits the condition on a USE flag off the front: whether the flag must be on,
its name, and what follows the question mark. -/
def splitCondition? (cs : List Char) : Option (Bool × String × List Char) :=
  let (expect, cs) :=
    match cs with
    | '!' :: rest => (false, rest)
    | cs => (true, cs)
  match cs with
  | [] => none
  | c :: rest =>
    if c.isAlphanum then
      match rest.dropWhile isUseFlagChar with
      | '?' :: after => some (expect, String.ofList (c :: rest.takeWhile isUseFlagChar), after)
      | _ => none
    else none

/-- Reads a group behind the condition on a USE flag. -/
def readConditional (members : List Char → Reading (List Expr)) (cs : List Char) :
    Reading Expr :=
  match splitCondition? cs with
  | none => .absent
  | some (expect, flag, rest) =>
    let rest := skipLayout rest
    (require "USE conditional group" rest (readGroup members rest)).map
      (.useConditional flag expect)

/-- Reads one entry; the given rule reads the members of its groups. -/
def readEntry (members : List Char → Reading (List Expr)) (cs : List Char) : Reading Expr :=
  match cs with
  | [] => .absent
  | '(' :: _ => (readGroup members cs).map .allOf
  | ')' :: _ => .absent
  | '|' :: _ => (readOperatorGroup members "||" cs).map .anyOf
  | '^' :: _ => (readOperatorGroup members "^^" cs).map .exactlyOneOf
  | '?' :: _ => (readOperatorGroup members "??" cs).map .atMostOneOf
  | _ => (readConditional members cs).orElse (readPackage cs)

/-- Reads entries for as long as there are any.  Each takes at least one character,
so more than the length of the input are never needed. -/
def readEntriesUpTo : Nat → List Char → Reading (List Expr)
  | 0, cs => .found [] cs
  | n + 1, cs =>
    match readEntry (readEntriesUpTo n) (skipLayout cs) with
    | .found e rest => (readEntriesUpTo n rest).map (e :: ·)
    | .absent => .found [] cs
    | .broken stop rest => .broken stop rest

/-- Reads all entries at the front. -/
def readEntries (cs : List Char) : Reading (List Expr) :=
  readEntriesUpTo (cs.length + 1) cs

/-- Reads the value of a dependency variable. -/
def Spec.parse (s : String) : Except Error Spec :=
  match (readEntries s.toList).complete s.toList with
  | .ok children => .ok ⟨children⟩
  | .error fault => .error (.dependency fault)

end Dependency
end EbuildGraph
