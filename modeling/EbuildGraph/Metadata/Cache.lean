import EbuildGraph.Metadata.Eapi
import EbuildGraph.Variables

/-!
# Metadata cache entries

A cache entry lists the variables of an ebuild, one {lit}`NAME=VALUE` to a line,
so that the ebuild need not be evaluated.

Main definitions:

- {lit}`CachedMetadata.parse`: reads an entry.
- {lit}`CachedMetadata.toVars`: the variables of the ebuild.
-/

namespace EbuildGraph

/-- A cache entry: variables, checksum of the ebuild, and the eclasses with theirs. -/
structure CachedMetadata where
  vars : Variables
  md5 : Option String
  eclasses : List (String × String)
deriving DecidableEq

namespace CachedMetadata

/-- The entry without lines. -/
def empty : CachedMetadata := ⟨NameMap.empty, none, []⟩

/-- The eclasses with their checksums, separated by tabs. -/
def parseChecksums (value : String) : List (String × String) :=
  Text.pairUp ((Text.fields '\t' value).filter (· != ""))

/-- Adds one line to an entry. -/
def addLine (entry : CachedMetadata) (line : String) : CachedMetadata :=
  match Text.cut '=' (Text.trimEnd line) with
  | none => entry
  | some (key, value) =>
    if key = "_md5_" then { entry with md5 := some value }
    else if key = "_eclasses_" then { entry with eclasses := parseChecksums value }
    else { entry with vars := entry.vars.insert key value }

/-- Reads an entry.  Lines without an equal sign do not count, of a repeated name
the last counts, and the EAPI must be a supported one. -/
def parse (s : String) : Except Error CachedMetadata :=
  let entry := (Text.lines s).foldl addLine empty
  (Eapi.ofVariable (entry.vars.get? "EAPI")).map fun _ => entry

/-- The variables of the ebuild.  The names of the eclasses stand in for
{lit}`INHERITED` when the entry does not give it. -/
def toVars (entry : CachedMetadata) : Variables :=
  if entry.vars.contains "INHERITED" || entry.eclasses.isEmpty then entry.vars
  else entry.vars.insert "INHERITED" (Text.unwords (entry.eclasses.map Prod.fst))

end CachedMetadata
end EbuildGraph
