import EbuildGraph.Text.Split

/-!
# Paths

A path keeps its spelling.  What it means is its list of components: doubled
slashes and inner dots do not count, and two spellings of the same components
name the same place.

Main definitions:

- {lit}`Path.components`: the meaning of a path.
- {lit}`Path.join`, {lit}`Path.parent?`, {lit}`Path.stripStart?`: steps that keep
  the spelling of what they do not touch.
- {lit}`Path.clean`: the path without dots, with each parent step carried out on the text.
-/

namespace EbuildGraph

/-- A path as it is spelled. -/
structure Path where
  text : String
deriving DecidableEq, Inhabited

namespace Path

/-- One step of a path. -/
inductive Component where
  | root
  | current
  | parent
  | normal (name : String)
deriving DecidableEq, Repr

/-- The component that one piece of a path stands for. -/
def Component.ofPiece (piece : String) : Component :=
  if piece = "." then current else if piece = ".." then parent else normal piece

/-- The spelling of a component. -/
def Component.text : Component → String
  | root => "/"
  | current => "."
  | parent => ".."
  | normal name => name

/-- Whether a path starts at the root. -/
def isAbsolute (p : Path) : Bool :=
  p.text.toList.head? == some '/'

/-- The pieces between slashes after the root, each with whether it counts as a
component.  Empty pieces and dots do not, but for a dot that starts a relative path. -/
def pieces (p : Path) : List (String × Bool) :=
  let parts := Text.fields '/' p.text
  if p.isAbsolute then parts.tail.map fun s => (s, s != "" && s != ".")
  else
    match parts with
    | [] => []
    | first :: rest => (first, first != "") :: rest.map fun s => (s, s != "" && s != ".")

/-- The components of a path in order. -/
def components (p : Path) : List Component :=
  let body := (p.pieces.filter Prod.snd).map fun piece => Component.ofPiece piece.1
  if p.isAbsolute then .root :: body else body

/-- Spells pieces with slashes between them. -/
def spell (absolute : Bool) (parts : List (String × Bool)) : Path :=
  ⟨(if absolute then "/" else "") ++ String.intercalate "/" (parts.map Prod.fst)⟩

/-- Removes pieces at the end that are no components. -/
def trimPieces (parts : List (String × Bool)) : List (String × Bool) :=
  (parts.reverse.dropWhile fun piece => !piece.2).reverse

/-- The second path seen from the first.  An absolute path replaces it. -/
def join (p q : Path) : Path :=
  if q.isAbsolute then q
  else if p.text = "" || p.text.toList.getLast? == some '/' then ⟨p.text ++ q.text⟩
  else ⟨p.text ++ "/" ++ q.text⟩

/-- The second path spelled as text, seen from the first. -/
def child (p : Path) (name : String) : Path :=
  p.join ⟨name⟩

/-- The path without its last component. -/
def parent? (p : Path) : Option Path :=
  match p.pieces.reverse.dropWhile fun piece => !piece.2 with
  | [] => none
  | _ :: rest => some (spell p.isAbsolute (trimPieces rest.reverse))

/-- The last component, if it is a name. -/
def fileName? (p : Path) : Option String :=
  match p.components.getLast? with
  | some (.normal name) => some name
  | _ => none

/-- The proper ancestors that a bounded number of parent steps reach, nearest first. -/
def ancestorsUpTo : Nat → Path → List Path
  | 0, _ => []
  | n + 1, p =>
    match p.parent? with
    | none => []
    | some q => q :: ancestorsUpTo n q

/-- The proper ancestors, nearest first. -/
def ancestors (p : Path) : List Path :=
  ancestorsUpTo (p.components.length + 1) p

/-- Removes the given number of components from the front of a list of pieces. -/
def dropComponents : Nat → List (String × Bool) → List (String × Bool)
  | 0, parts => parts
  | _ + 1, [] => []
  | n + 1, piece :: rest => if piece.2 then dropComponents n rest else dropComponents (n + 1) rest

/-- What remains of a path below another, or nothing when it is not below it. -/
def stripStart? (p base : Path) : Option Path :=
  if base.components.isPrefixOf p.components then
    if base.components.isEmpty then some (spell p.isAbsolute (trimPieces p.pieces))
    else
      let count := base.components.length - (if p.isAbsolute then 1 else 0)
      let rest := (dropComponents count p.pieces).dropWhile fun piece => !piece.2
      some (spell false (trimPieces rest))
  else none

/-- Whether two paths have the same components. -/
def same (p q : Path) : Bool :=
  p.components == q.components

/-- One step of cleaning; the steps kept so far are listed last one first. -/
def cleanStep (kept : List Component) : Component → List Component
  | .current => kept
  | .root => [.root]
  | .normal name => .normal name :: kept
  | .parent =>
    match kept with
    | .normal _ :: rest => rest
    | _ => if kept.getLast? = some .root then kept else .parent :: kept

/-- Spells components in order. -/
def ofComponents : List Component → Path
  | .root :: rest => ⟨"/" ++ String.intercalate "/" (rest.map Component.text)⟩
  | steps => ⟨String.intercalate "/" (steps.map Component.text)⟩

/-- The components of the cleaned path. -/
def cleanComponents (p : Path) : List Component :=
  (p.components.foldl cleanStep []).reverse

/-- The path without dots, each parent step undoing the name before it.  Nothing
is above the root, and parent steps that start a relative path stay. -/
def clean (p : Path) : Path :=
  ofComponents p.cleanComponents

end Path
end EbuildGraph
