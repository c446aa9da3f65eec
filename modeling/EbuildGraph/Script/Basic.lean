import EbuildGraph.Variables

/-!
# Scripts of assignments

Configuration files and simple ebuilds are shell scripts of which only assignments
matter.

Main definitions:

- {lit}`Word`: characters and expansions of variables.
- {lit}`Command`, {lit}`Statement`: what a script may hold.
- {lit}`Word.expand`: the text of a word under given variables.
-/

namespace EbuildGraph
namespace Script

/-- One piece of a word once quotes and escapes are gone. -/
inductive Piece where
  | char (c : Char)
  | expansion (name : String)
deriving DecidableEq

/-- A word without its quotes. -/
abbrev Word := List Piece

/-- The characters that a piece stands for. -/
def Piece.expand (env : Variables) : Piece → List Char
  | char c => [c]
  | expansion name => (Variables.value env name).toList

/-- The text of a word under given variables. -/
def Word.expand (env : Variables) (w : Word) : String :=
  String.ofList (w.flatMap (Piece.expand env))

/-- The right-hand side of an assignment. -/
inductive Value where
  | scalar (word : Word)
  | array (words : List Word)
deriving DecidableEq

/-- One command of a script. -/
inductive Command where
  | assign (assignments : List (String × Value))
  | source (path : Word)
  | inherit (eclasses : List Word)
deriving DecidableEq

/-- A command and the line it starts on. -/
structure Statement where
  line : Nat
  command : Command
deriving DecidableEq

end Script
end EbuildGraph
