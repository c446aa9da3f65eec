import EbuildGraph.Error
import EbuildGraph.Text.Blank

/-!
# Keywords and stability

An ebuild's {lit}`KEYWORDS` say on which architectures it is stable, in testing
or broken.

Main definitions:

- {lit}`Keyword.parseList`: the keywords of a value.
- {lit}`Stability.ofKeywords`: the tier that a value gives to an architecture.
-/

namespace EbuildGraph

/-- How ready a package is on an architecture. -/
inductive Stability where
  | stable
  | testing
  | broken
deriving DecidableEq, Repr

namespace Stability

/-- Every tier, best first. -/
def all : List Stability := [stable, testing, broken]

/-- A tier as it is written. -/
def text : Stability → String
  | stable => "stable"
  | testing => "testing"
  | broken => "broken"

/-- The tier with the given name. -/
def ofText? (s : String) : Option Stability :=
  all.find? fun tier => tier.text == s

/-- The better of two tiers. -/
def best : Stability → Stability → Stability
  | stable, _ => stable
  | _, stable => stable
  | testing, _ => testing
  | _, testing => testing
  | broken, broken => broken

end Stability

/-- An architecture and its tier. -/
structure Keyword where
  arch : String
  stability : Stability
deriving DecidableEq

namespace Keyword

/-- The sign of a tier before an architecture. -/
def sign : Stability → String
  | .stable => ""
  | .testing => "~"
  | .broken => "-"

/-- A keyword as it is written. -/
def text (k : Keyword) : String :=
  sign k.stability ++ k.arch

/-- Splits the sign off the start of a keyword. -/
def splitSign : List Char → Stability × List Char
  | '~' :: arch => (.testing, arch)
  | '-' :: arch => (.broken, arch)
  | arch => (.stable, arch)

/-- Reads one keyword. -/
def parse (s : String) : Except Error Keyword :=
  let (stability, arch) := splitSign s.toList
  if arch.isEmpty then .error (.keyword s) else .ok ⟨String.ofList arch, stability⟩

/-- Reads the keywords of a value. -/
def parseList (s : String) : Except Error (List Keyword) :=
  (Text.words s).mapM parse

/-- The best tier that a list of keywords gives to exactly this architecture. -/
def bestFor? (keywords : List Keyword) (arch : String) : Option Stability :=
  match (keywords.filter fun k => k.arch == arch).map Keyword.stability with
  | [] => none
  | tier :: tiers => some (tiers.foldl Stability.best tier)

end Keyword

/-- The tier that a value gives to an architecture.  Without a keyword of its own
the architecture has the tier of the star, and without that it is in testing. -/
def Stability.ofKeywords (keywords arch : String) : Except Error Stability :=
  (Keyword.parseList keywords).map fun parsed =>
    ((Keyword.bestFor? parsed arch).or (Keyword.bestFor? parsed "*")).getD .testing

end EbuildGraph
