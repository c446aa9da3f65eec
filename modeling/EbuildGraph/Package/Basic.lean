import EbuildGraph.Ebuild
import EbuildGraph.Metadata.Keyword

/-!
# Packages

A package is an ebuild together with its metadata.

Main definitions:

- {lit}`Package`: an ebuild with its name, its version and its metadata.
- {lit}`Package.target`: the package as atoms see it.
- {lit}`Package.eapi`, {lit}`Package.stability`, {lit}`Package.inherits`: what the
  metadata says.
-/

namespace EbuildGraph

/-- An ebuild together with its metadata. -/
structure Package where
  path : Path
  name : String
  version : Version
  info : EvaluatedEbuild
deriving DecidableEq

namespace Package

/-- All variables of the ebuild. -/
def metadata (p : Package) : Variables :=
  p.info.metadata

/-- The flags that are on. -/
def useFlags (p : Package) : NameSet :=
  p.info.useFlags

/-- The part of a text before its first slash. -/
def beforeSlash (s : String) : String :=
  String.ofList (s.toList.takeWhile (· != '/'))

/-- The slot without the sub-slot. -/
def mainSlot (p : Package) : String :=
  beforeSlash (Variables.value p.metadata "SLOT")

/-- The part of the name before the slash. -/
def category (p : Package) : String :=
  beforeSlash p.name

/-- The package as atoms see it. -/
def target (p : Package) : ConcretePackage :=
  ⟨p.name, p.version, p.mainSlot, p.useFlags⟩

/-- The EAPI level that the ebuild declares. -/
def eapi (p : Package) : Except Error Eapi :=
  Eapi.ofVariable (p.metadata.get? "EAPI")

/-- The stability on the configured architecture. -/
def stability (p : Package) : Except Error Stability :=
  Stability.ofKeywords (Variables.value p.metadata "KEYWORDS") (Variables.value p.metadata "ARCH")

/-- Whether the ebuild inherits an eclass. -/
def inherits (p : Package) (eclass : String) : Bool :=
  (Variables.list p.metadata "INHERITED").contains eclass

end Package
end EbuildGraph
