import EbuildGraph.Error
import EbuildGraph.Text.Blank
import EbuildGraph.Text.Split

/-!
# Declared USE flags

An ebuild lists its USE flags in {lit}`IUSE`; a sign before a flag sets its default.

Main definitions:

- {lit}`IUse.parse`, {lit}`IUse.parseList`: one entry, and all entries of a value.
- {lit}`IUse.enabledByDefault`: the flags that are on unless something else says otherwise.
-/

namespace EbuildGraph

/-- The default that a sign gives to a flag. -/
inductive FlagDefault where
  | enabled
  | disabled
deriving DecidableEq, Repr

/-- The sign of a default. -/
def FlagDefault.sign : FlagDefault → String
  | enabled => "+"
  | disabled => "-"

/-- One declared flag. -/
structure IUse where
  name : String
  default : Option FlagDefault
deriving DecidableEq

namespace IUse

/-- An entry as it is written. -/
def text (flag : IUse) : String :=
  (flag.default.elim "" FlagDefault.sign) ++ flag.name

/-- Splits a sign off the start of an entry. -/
def splitSign : List Char → Option FlagDefault × List Char
  | '+' :: name => (some .enabled, name)
  | '-' :: name => (some .disabled, name)
  | name => (none, name)

/-- Reads one entry. -/
def parse (s : String) : Except Error IUse :=
  let (default, name) := splitSign s.toList
  if name.isEmpty then .error (.iuse s) else .ok ⟨String.ofList name, default⟩

/-- Reads the entries of a value. -/
def parseList (s : String) : Except Error (List IUse) :=
  (Text.words s).mapM parse

/-- The flags that a value turns on, sorted. -/
def enabledByDefault (s : String) : Except Error String :=
  (parseList s).map fun flags =>
    let enabled := (flags.filter fun flag => flag.default = some .enabled).map IUse.name
    Text.unwords (enabled.mergeSort fun a b => decide (a ≤ b))

end IUse
end EbuildGraph
