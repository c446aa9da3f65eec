import EbuildGraph.Atom.Parser
import EbuildGraph.FileTree

/-!
# Files that list one thing to a line

Blank lines and lines that start with a number sign do not count, and a missing
file is empty.

Main definitions:

- {lit}`readLines`: the lines that count, with their numbers.
- {lit}`readFlags`, {lit}`readPackageFlags`, {lit}`readPackageMasks`,
  {lit}`readProvided`: what they list.
-/

namespace EbuildGraph

/-- A package known by name and version only. -/
structure PackageVersion where
  name : String
  version : Version
deriving DecidableEq

namespace PackageVersion

/-- Name and version as they are written. -/
def text (p : PackageVersion) : String :=
  p.name ++ "-" ++ p.version.text

/-- The package as atoms see it: without slot and flags. -/
def toConcrete (p : PackageVersion) : ConcretePackage :=
  ⟨p.name, p.version, "", NameSet.empty⟩

end PackageVersion

namespace Configuration

/-- Flags for the packages that satisfy an atom. -/
structure PackageFlags where
  atom : Atom
  flags : List String
deriving DecidableEq

/-- A mask, or the lifting of one. -/
structure MaskRule where
  atom : Atom
  unmask : Bool
deriving DecidableEq

/-- Whether a trimmed line counts. -/
def isListed (line : String) : Bool :=
  line != "" && line.toList.head? != some '#'

/-- The lines of a text that count, with their numbers from one. -/
def listedLines (s : String) : List (Nat × String) :=
  (((Text.lines s).zipIdx 1).map fun entry => (entry.2, Text.trim entry.1)).filter
    fun entry => isListed entry.2

/-- The lines of a file that count, with their numbers. -/
def readLines (tree : FileTree) (path : Path) : Except Error (List (Nat × String)) :=
  match tree.readText path with
  | .ok s => .ok (listedLines s)
  | .error .notFound => .ok []
  | .error fault => .error (.file path fault)

/-- Reads a file line by line with a rule for one line. -/
def readEach {α : Type} (tree : FileTree) (path : Path) (rule : String → Except LineFault α) :
    Except Error (List α) :=
  (readLines tree path).bind fun lines =>
    lines.mapM fun entry => (rule entry.2).mapError (.line path entry.1)

/-- Flags, one or more to a line. -/
def readFlags (tree : FileTree) (path : Path) : Except Error (List String) :=
  (readLines tree path).map fun lines => lines.flatMap fun entry => Text.words entry.2

/-- An atom and flags behind it. -/
def packageFlagsOfLine (line : String) : Except LineFault PackageFlags :=
  let fields := Text.words line
  ((Atom.parse (fields.headD "")).mapError LineFault.atom).map fun atom => ⟨atom, fields.tail⟩

/-- Atoms with flags behind them. -/
def readPackageFlags (tree : FileTree) (path : Path) : Except Error (List PackageFlags) :=
  readEach tree path packageFlagsOfLine

/-- An atom to mask, or to unmask behind a hyphen. -/
def packageMaskOfLine (line : String) : Except LineFault MaskRule :=
  let (unmask, atom) :=
    match Text.dropStart? "-" line with
    | some atom => (true, atom)
    | none => (false, line)
  ((Atom.parse atom).mapError LineFault.atom).map fun atom => ⟨atom, unmask⟩

/-- Atoms to mask or unmask. -/
def readPackageMasks (tree : FileTree) (path : Path) : Except Error (List MaskRule) :=
  readEach tree path packageMaskOfLine

/-- A package name, a hyphen and a version. -/
def providedOfLine (line : String) : Except LineFault PackageVersion :=
  match Version.splitTrailing line with
  | .error fault => .error (.providedVersion line fault)
  | .ok (start, version) =>
    match Text.dropEnd? "-" start with
    | none => .error (.providedName line)
    | some name => .ok ⟨name, version⟩

/-- Packages to treat as installed. -/
def readProvided (tree : FileTree) (path : Path) : Except Error (List PackageVersion) :=
  readEach tree path providedOfLine

end Configuration
end EbuildGraph
