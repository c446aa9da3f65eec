import EbuildGraph.Names.NameMap
import EbuildGraph.Names.NameSet
import EbuildGraph.Text.Blank
import EbuildGraph.Text.Split

/-!
# Tables of variables

Configuration assigns variables layer by layer.  A later value replaces an
earlier one, except for the incremental variables, whose values are lists of
flags that add up.

Main definitions:

- {lit}`isIncremental`: the variables that add up.
- {lit}`settleFlags`: the flags that a list leaves on.
- {lit}`Variables.settle`: the table that a list of layers amounts to.
-/

namespace EbuildGraph

/-- A table of variables. -/
abbrev Variables := NameMap String

/-- The variables whose values add up across layers. -/
def incrementalNames : List String :=
  ["USE", "USE_EXPAND", "USE_EXPAND_HIDDEN", "CONFIG_PROTECT", "CONFIG_PROTECT_MASK",
    "IUSE_IMPLICIT", "USE_EXPAND_IMPLICIT", "USE_EXPAND_UNPREFIXED", "ENV_UNSET"]

/-- Whether the values of a variable add up across layers. -/
def isIncremental (name : String) : Bool :=
  incrementalNames.contains name || "USE_EXPAND_VALUES_".toList.isPrefixOf name.toList

/-- One word of a list of flags: all flags off, one off, or one on. -/
def applyFlag (flags : NameSet) (token : String) : NameSet :=
  if token = "-*" then NameSet.empty
  else
    match token.toList with
    | '-' :: name => flags.erase (String.ofList name)
    | _ => flags.insert token

/-- The flags that are on after a list of words. -/
def finalFlags (tokens : List String) : NameSet :=
  tokens.foldl applyFlag NameSet.empty

/-- A list of flags reduced to those it leaves on, sorted. -/
def settleFlags (value : String) : String :=
  Text.unwords (finalFlags (Text.words value)).toList

namespace Variables

/-- The value of a variable; one that is not set is empty. -/
def value (vars : Variables) (name : String) : String :=
  (vars.get? name).getD ""

/-- The words of a variable. -/
def list (vars : Variables) (name : String) : List String :=
  Text.words (vars.value name)

/-- A value added behind another one. -/
def addValue (current value : String) : String :=
  if current = "" then value else current ++ " " ++ value

/-- Puts one variable on top of a table. -/
def mergeEntry (vars : Variables) (name value : String) : Variables :=
  match vars.get? name with
  | some current =>
    if isIncremental name then vars.insert name (addValue current value)
    else vars.insert name value
  | none => vars.insert name value

/-- Puts a table on top of another. -/
def merge (vars other : Variables) : Variables :=
  other.entries.foldl (fun acc e => mergeEntry acc e.1 e.2) vars

/-- The variables that do not add up. -/
def dropIncremental (vars : Variables) : Variables :=
  vars.filterNames fun name => !isIncremental name

/-- Puts layers on top of one another, first to last. -/
def mergeAll (layers : List Variables) : Variables :=
  layers.foldl merge NameMap.empty

/-- The table that a list of layers amounts to, each list of flags reduced. -/
def settle (layers : List Variables) : Variables :=
  (mergeAll layers).mapEntries fun name value =>
    if isIncremental name then settleFlags value else value

end Variables
end EbuildGraph
