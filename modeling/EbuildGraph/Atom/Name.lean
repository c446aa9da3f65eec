import EbuildGraph.Text.Split
import EbuildGraph.Version.Parser

/-!
# Names of categories and packages

A package is named {lit}`category/package`.  A package name may hold hyphens, but
not one that is followed by a version: that would make it impossible to tell the
name from the version behind it.

Main definitions:

- {lit}`validateCategory`, {lit}`validatePackage`, {lit}`checkQualified`: the rules for
  the two parts and for the whole name.
-/

namespace EbuildGraph

/-- Whether a character may start a name. -/
def isNameStart (c : Char) : Bool :=
  c.isAlphanum || c == '_'

/-- Whether a character may follow in a package name. -/
def isPackageChar (c : Char) : Bool :=
  c.isAlphanum || c == '+' || c == '_' || c == '-'

/-- Whether a character may follow in a category name. -/
def isCategoryChar (c : Char) : Bool :=
  isPackageChar c || c == '.'

/-- Whether characters are a start followed by admitted characters. -/
def isNameOf (admitted : Char → Bool) : List Char → Bool
  | [] => false
  | c :: rest => isNameStart c && rest.all admitted

/-- Checks a category name. -/
def validateCategory (s : String) : Except NameFault Unit :=
  if isNameOf isCategoryChar s.toList then .ok () else .error (.category s)

/-- Whether a version follows the last hyphen that could separate one. -/
def endsInVersion (cs : List Char) : Bool :=
  match Version.splitVersion? cs with
  | some (start, _) => start.getLast? == some '-'
  | none => false

/-- Checks a package name. -/
def validatePackage (s : String) : Except NameFault Unit :=
  if !isNameOf isPackageChar s.toList then .error (.package s)
  else if endsInVersion s.toList then .error (.versionLike s)
  else .ok ()

/-- Checks a name of the form {lit}`category/package`. -/
def checkQualified (s : String) : Except NameFault Unit :=
  match Text.cut '/' s with
  | none => .error (.package s)
  | some (category, package) =>
    match validateCategory category with
    | .error fault => .error fault
    | .ok () => validatePackage package

end EbuildGraph
