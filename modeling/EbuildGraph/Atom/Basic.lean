import EbuildGraph.Names.NameSet
import EbuildGraph.Version.Order

/-!
# Package atoms

An atom names a package and may bound its version, its slot and its USE flags:
{lit}`>=dev-lang/python-3.6:3.6=[sqlite,-build(-)]`.

Main definitions:

- {lit}`Atom`: the parts of an atom.
- {lit}`Atom.text`: how an atom is written.
- {lit}`Atom.admits`: the packages that satisfy an atom.
-/

namespace EbuildGraph

/-- How a version is compared with the one in an atom.  {lit}`pattern` is the
equal sign with a star behind the version. -/
inductive Comparison where
  | less
  | lessEqual
  | equal
  | pattern
  | approximate
  | greaterEqual
  | greater
deriving DecidableEq, Repr

namespace Comparison

/-- The operator of a comparison as it is written. -/
def operator : Comparison → String
  | less => "<"
  | lessEqual => "<="
  | equal => "="
  | pattern => "="
  | approximate => "~"
  | greaterEqual => ">="
  | greater => ">"

/-- What is written behind the version. -/
def star : Comparison → String
  | pattern => "*"
  | _ => ""

/-- Whether a version stands in the given relation to the one in an atom. -/
def holds (comparison : Comparison) (found wanted : Version) : Bool :=
  match comparison with
  | less => found.compare wanted == .lt
  | lessEqual => found.compare wanted != .gt
  | equal => found.compare wanted == .eq
  | pattern => found.fitsPattern wanted
  | approximate => found.withoutRevision.compare wanted == .eq
  | greaterEqual => found.compare wanted != .lt
  | greater => found.compare wanted == .gt

end Comparison

/-- A version and how others are compared with it. -/
structure VersionBound where
  comparison : Comparison
  version : Version
deriving DecidableEq

/-- A package that an atom can be held against.  The slot is empty when it is
not known. -/
structure ConcretePackage where
  name : String
  version : Version
  slot : String
  useFlags : NameSet
deriving DecidableEq

/-- A package atom.  Slot and USE dependencies are kept as they are written. -/
structure Atom where
  name : String
  bound : Option VersionBound
  slot : String
  useDependencies : List String
deriving DecidableEq

namespace Atom

/-- The atom that any version of a package satisfies. -/
def ofName (name : String) : Atom :=
  ⟨name, none, "", []⟩

/-- The part of the name before its first slash. -/
def category (a : Atom) : String :=
  String.ofList (a.name.toList.takeWhile (· != '/'))

/-- An atom as it is written. -/
def text (a : Atom) : String :=
  (match a.bound with
    | some b => b.comparison.operator ++ a.name ++ "-" ++ b.version.text ++ b.comparison.star
    | none => a.name) ++
    (if a.slot = "" then "" else ":" ++ a.slot) ++
    (if a.useDependencies = [] then ""
      else "[" ++ String.intercalate "," a.useDependencies ++ "]")

/-- The main slot that a slot dependency asks for; {lit}`*` and {lit}`=` ask for none. -/
def wantedSlot? (a : Atom) : Option String :=
  if a.slot = "" || a.slot = "*" || a.slot = "=" then none
  else
    let slot := (a.slot.toList.reverse.dropWhile (· == '=')).reverse
    some (String.ofList (slot.takeWhile (· != '/')))

/-- Whether a package satisfies an atom.  Only name, main slot and version count. -/
def admits (a : Atom) (target : ConcretePackage) : Bool :=
  target.name == a.name &&
    (match a.wantedSlot? with
      | some slot => target.slot == slot
      | none => true) &&
    (match a.bound with
      | some b => b.comparison.holds target.version b.version
      | none => true)

/-- Whether two atoms differ at most in the spelling of an equal version. -/
def same (a b : Atom) : Bool :=
  a.name == b.name && a.slot == b.slot && a.useDependencies == b.useDependencies &&
    (match a.bound, b.bound with
      | none, none => true
      | some x, some y => x.comparison == y.comparison && x.version.same y.version
      | _, _ => false)

end Atom
end EbuildGraph
