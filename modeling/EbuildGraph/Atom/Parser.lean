import EbuildGraph.Atom.Basic
import EbuildGraph.Atom.Name

/-!
# Reading atoms

Main definition:

- {lit}`Atom.parse`: reads an atom, or says which of its parts is wrong.
-/

namespace EbuildGraph
namespace Atom

/-- Splits the USE dependencies off the end of a text. -/
def splitUse (input s : String) : Except AtomFault (String × List String) :=
  match Text.dropEnd? "]" s with
  | none => .ok (s, [])
  | some body =>
    match Text.cut '[' body with
    | none => .error (.useDependencies input)
    | some (head, dependencies) => .ok (head, Text.fields ',' dependencies)

/-- Splits the slot off the end of a text. -/
def splitSlot (s : String) : String × String :=
  match Text.cut ':' s with
  | some (head, slot) => (head, slot)
  | none => (s, "")

/-- The comparisons and their operators, each before those it is the beginning of. -/
def operators : List (String × Comparison) :=
  [("<=", .lessEqual), ("<", .less), ("=", .equal), ("~", .approximate), (">=", .greaterEqual),
    (">", .greater)]

/-- Splits an operator off the start of a text. -/
def splitOperator? (s : String) : Option (Comparison × String) :=
  operators.findSome? fun entry =>
    (Text.dropStart? entry.1 s).map fun rest => (entry.2, rest)

/-- Splits a star off the end of a text whose operator has been read. -/
def splitStar (input : String) (comparison : Comparison) (s : String) :
    Except AtomFault (Comparison × String) :=
  match Text.dropEnd? "*" s with
  | none => .ok (comparison, s)
  | some head =>
    if comparison = .equal then .ok (.pattern, head) else .error (.wildcard input)

/-- Splits a text after the operator into name and version. -/
def splitNameVersion (input s : String) : Except AtomFault (String × Version) :=
  match Version.splitTrailing s with
  | .error fault => .error (.version input fault)
  | .ok (start, version) =>
    match Text.dropEnd? "-" start with
    | none => .error (.missingHyphen input)
    | some name => .ok (name, version)

/-- Reads the part of an atom before slot and USE dependencies. -/
def parseBound (input s : String) : Except AtomFault (String × Option VersionBound) :=
  match splitOperator? s with
  | none => .ok (s, none)
  | some (comparison, rest) =>
    match splitStar input comparison rest with
    | .error fault => .error fault
    | .ok (comparison, rest) =>
      match splitNameVersion input rest with
      | .error fault => .error fault
      | .ok (name, version) => .ok (name, some ⟨comparison, version⟩)

/-- Reads an atom. -/
def parse (input : String) : Except AtomFault Atom :=
  match splitUse input input with
  | .error fault => .error fault
  | .ok (rest, useDependencies) =>
    let (rest, slot) := splitSlot rest
    match parseBound input rest with
    | .error fault => .error fault
    | .ok (name, bound) =>
      match checkQualified name with
      | .error fault => .error (.name input fault)
      | .ok () => .ok ⟨name, bound, slot, useDependencies⟩

end Atom
end EbuildGraph
