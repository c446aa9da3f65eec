import EbuildGraph.Grammar
import EbuildGraph.SourceUri.Basic

/-!
# Reading source addresses

Main definition:

- {lit}`SourceUri.parse`: reads the value of {lit}`SRC_URI`.
-/

namespace EbuildGraph
namespace SourceUri

/-- What a rule for some part of a source expression reports. -/
abbrev Reading (α : Type) := Outcome ExpressionStop α

/-- Whether a character may occur in an address. -/
def isUrlChar (c : Char) : Bool :=
  !Text.isBlank c && c != '(' && c != ')'

/-- Whether a character may occur in the name to store a file under. -/
def isFileNameChar (c : Char) : Bool :=
  c.isAlphanum || c == '.' || c == '-' || c == '_' || c == '+' || c == '%' || c == '~' || c == ','

/-- Whether a character may occur in the name of a flag. -/
def isUseFlagChar (c : Char) : Bool :=
  c.isAlphanum || c == '_' || c == '-' || c == '+' || c == '@'

/-- Reads the name behind an arrow.  Without an arrow there is none. -/
def readRename (cs : List Char) : Reading (Option String) :=
  match skipLayout cs with
  | '-' :: '>' :: rest =>
    let rest := skipLayout rest
    match rest.takeWhile isFileNameChar with
    | [] => .broken ⟨some "renamed file", none⟩ rest
    | name => .found (some (String.ofList name)) (rest.dropWhile isFileNameChar)
  | _ => .found none cs

/-- Reads an address and the name to store its file under. -/
def readUri (cs : List Char) : Reading Entry :=
  match cs.takeWhile isUrlChar with
  | [] => .absent
  | url => (readRename (cs.dropWhile isUrlChar)).map (.uri (String.ofList url))

/-- Reads a group in parentheses whose members the given rule reads. -/
def readGroup (members : List Char → Reading (List Entry)) : List Char → Reading (List Entry)
  | '(' :: cs =>
    (members cs).andThen fun entries rest =>
      match skipLayout rest with
      | ')' :: rest => .found entries rest
      | rest => .broken ⟨some "closing ')'", none⟩ rest
  | _ => .absent

/-- Splits the condition on a USE flag off the front: whether it is negated, the
flag, and what follows.  The question mark must stand before a blank. -/
def splitCondition? (cs : List Char) : Option (Bool × String × List Char) :=
  let (negated, cs) :=
    match cs with
    | '!' :: rest => (true, rest)
    | cs => (false, cs)
  match cs.takeWhile isUseFlagChar, cs.dropWhile isUseFlagChar with
  | c :: flag, '?' :: blank :: rest =>
    if Text.isBlank blank then some (negated, String.ofList (c :: flag), blank :: rest) else none
  | _, _ => none

/-- Reads one entry; the given rule reads the members of its groups.  What does not
start like the condition on a flag is an address. -/
def readEntry (members : List Char → Reading (List Entry)) (cs : List Char) : Reading Entry :=
  match cs with
  | '(' :: _ => (readGroup members cs).map .group
  | cs =>
    match splitCondition? cs with
    | none => readUri cs
    | some (negated, flag, rest) =>
      let rest := skipLayout rest
      ((readGroup members rest).required ⟨some "USE conditional group", none⟩ rest).map
        (.useConditional flag negated)

/-- Reads entries for as long as there are any.  Each takes at least one character,
so more than the length of the input are never needed. -/
def readEntriesUpTo : Nat → List Char → Reading (List Entry)
  | 0, cs => .found [] cs
  | n + 1, cs =>
    match readEntry (readEntriesUpTo n) (skipLayout cs) with
    | .found e rest => (readEntriesUpTo n rest).map (e :: ·)
    | .absent => .found [] cs
    | .broken stop rest => .broken stop rest

/-- Reads all entries at the front. -/
def readEntries (cs : List Char) : Reading (List Entry) :=
  readEntriesUpTo (cs.length + 1) cs

/-- Reads the value of {lit}`SRC_URI`. -/
def parse (s : String) : Except Error (List Entry) :=
  match (readEntries s.toList).complete s.toList with
  | .ok entries => .ok entries
  | .error fault => .error (.sourceUri fault)

end SourceUri
end EbuildGraph
