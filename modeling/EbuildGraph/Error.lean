import EbuildGraph.Path.Basic
import EbuildGraph.Text.Hex
import EbuildGraph.Text.Natural
import EbuildGraph.Text.Quoted
import EbuildGraph.Text.Utf8

/-!
# What can go wrong

Every failure is a cause, not a text.  {lit}`Error.message` gives the wording,
{lit}`Error.innermostCause` the innermost cause below the context layers that
resolution adds on the way out.
-/

namespace EbuildGraph

/-- Why a text is no version. -/
inductive VersionFault where
  | missingNumber (text : String)
  | excessStart (text : String)
deriving DecidableEq, Repr

def VersionFault.message : VersionFault → String
  | missingNumber text => "invalid version: " ++ text ++ ": missing numeric part"
  | excessStart text => "invalid version: " ++ text ++ ": excess prefix"

/-- Why a text names no category or package. -/
inductive NameFault where
  | category (text : String)
  | package (text : String)
  | versionLike (text : String)
deriving DecidableEq, Repr

def NameFault.message : NameFault → String
  | category text => "invalid atom: invalid category name " ++ Text.quoted text
  | package text => "invalid atom: invalid package name " ++ Text.quoted text
  | versionLike text =>
    "invalid atom: invalid package name " ++ Text.quoted text ++ ": version-like suffix"

/-- Why a text is no package atom. -/
inductive AtomFault where
  | useDependencies (text : String)
  | wildcard (text : String)
  | missingHyphen (text : String)
  | version (text : String) (fault : VersionFault)
  | name (text : String) (fault : NameFault)
  | blockers (text : String)
deriving DecidableEq, Repr

def AtomFault.message : AtomFault → String
  | useDependencies text => "invalid atom: " ++ text ++ ": invalid use dependencies"
  | wildcard text => "invalid atom: " ++ text ++ ": wildcard is only allowed with '='"
  | missingHyphen text => "invalid atom: " ++ text ++ ": missing '-' before version"
  | version text fault => "invalid atom: " ++ text ++ ": " ++ fault.message
  | name text fault => "invalid atom: " ++ text ++ ": " ++ fault.message
  | blockers text => "invalid atom: " ++ text ++ ": too many blockers"

/-- A place in a text: line and column, both counted from one. -/
structure Position where
  line : Nat
  column : Nat
deriving DecidableEq, Repr

/-- Where a grammar stopped, what it was reading, and the atom at fault if any. -/
structure GrammarFault where
  reading : Option String
  atom : Option AtomFault
  position : Position
deriving DecidableEq, Repr

def GrammarFault.message (fault : GrammarFault) : String :=
  match fault.reading, fault.atom with
  | some label, some atom => "invalid " ++ label ++ "\n" ++ atom.message
  | some label, none => "invalid " ++ label
  | none, some atom => atom.message
  | none, none => ""

/-- Why a manifest cannot be used. -/
inductive ManifestFault where
  | fileName (line : Nat) (field : String) (fault : Text.Utf8Fault)
  | size (line : Nat) (field : String) (fault : Text.SizeFault)
  | digest (line : Nat) (hash digits : String) (fault : Text.HexFault)
  | missingFile (name : String)
deriving DecidableEq, Repr

def ManifestFault.message : ManifestFault → String
  | fileName line field fault =>
    "line " ++ toString line ++ ": " ++ field ++ ": " ++ fault.message
  | size line field fault =>
    "line " ++ toString line ++ ": size " ++ field ++ ": " ++ fault.message
  | digest line hash digits fault =>
    "line " ++ toString line ++ ": " ++ hash ++ " " ++ digits ++ ": " ++ fault.message
  | missingFile name => "cannot find file " ++ name

/-- Why a line of a configuration file cannot be used. -/
inductive LineFault where
  | atom (fault : AtomFault)
  | providedVersion (text : String) (fault : VersionFault)
  | providedName (text : String)
  | keyValue
  | reading (label : String)
  | statementEnd
  | unreadable
  | sourceForbidden
  | sourceTooDeep
deriving DecidableEq, Repr

def LineFault.message : LineFault → String
  | atom fault => fault.message
  | providedVersion text fault => "invalid provided package " ++ text ++ ": " ++ fault.message
  | providedName text => "invalid provided package " ++ text
  | keyValue => "expected key = value"
  | reading label => "invalid " ++ label
  | statementEnd => "expected end of statement"
  | unreadable => ""
  | sourceForbidden => "source is not allowed here"
  | sourceTooDeep => "source nesting is too deep"

/-- A construct of scripts that only ebuilds may use. -/
inductive EbuildOnly where
  | array (name : String)
  | inherit
deriving DecidableEq, Repr

def EbuildOnly.message : EbuildOnly → String
  | array name => "array assignment to " ++ name
  | inherit => "inherit outside an ebuild"

/-- Why a path is no ebuild of a repository. -/
inductive PlaceFault where
  | noFileName
  | noEnding
  | tooShallow
  | packageName
  | directoryName
deriving DecidableEq, Repr

def PlaceFault.message : PlaceFault → String
  | noFileName => "invalid ebuild path"
  | noEnding => "must have suffix .ebuild"
  | tooShallow => "ebuild must live in <category>/<package>/"
  | packageName => "invalid package name"
  | directoryName => "ebuild name mismatch with directory name"

/-- Why a reference leads to no profile. -/
inductive ProfileFault where
  | missing (name : String)
  | outside (repository reference : String)
  | unqualified (name : String)
  | unknownRepository (name repository : String)
  | unknownPath (path : Path)
deriving DecidableEq

def ProfileFault.message : ProfileFault → String
  | missing name => name
  | outside repository reference => repository ++ ":" ++ reference ++ ": invalid profile path"
  | unqualified name => name ++ ": must be <repo-name>:<profile-path>"
  | unknownRepository name repository => name ++ ": repository " ++ repository ++ " does not exist"
  | unknownPath path => path.text ++ ": not under a known repository"

/-- Why a file cannot be used. -/
inductive FileFault where
  | notFound
  | notDirectory
  | isDirectory
  | invalidArgument
  | nameTooLong
  | tooManyLinks
  | nulInPath
  | notUtf8
deriving DecidableEq, Repr

def FileFault.message : FileFault → String
  | notFound => "No such file or directory (os error 2)"
  | notDirectory => "Not a directory (os error 20)"
  | isDirectory => "Is a directory (os error 21)"
  | invalidArgument => "Invalid argument (os error 22)"
  | nameTooLong => "File name too long (os error 36)"
  | tooManyLinks => "Too many levels of symbolic links (os error 40)"
  | nulInPath => "file name contained an unexpected NUL byte"
  | notUtf8 => "stream did not contain valid UTF-8"

/-- A failure of reading, selection or resolution. -/
inductive Error where
  | version (fault : VersionFault)
  | name (fault : NameFault)
  | atom (fault : AtomFault)
  | dependency (fault : GrammarFault)
  | sourceUri (fault : GrammarFault)
  | sourceUriName (url : String)
  | eapi (text : String)
  | keyword (text : String)
  | iuse (text : String)
  | manifest (path : Path) (fault : ManifestFault)
  | line (path : Path) (number : Nat) (fault : LineFault)
  | sourceArrays (path : Path) (array : String) (count projects : Nat)
  | ebuildOnly (path : Path) (line : Nat) (construct : EbuildOnly)
  | forcedProvided (fault : NameFault)
  | noMainRepository
  | settings
  | ambiguousBlocks (group : String)
  | ambiguousFilter (package group : String)
  | undecided (expression : String)
  | unsatisfiable (var package value : String)
  | noCandidate (atom : String)
  | cycle (label : String)
  | inconsistentSelection (label got want : String)
  | profile (fault : ProfileFault)
  | ebuildPlace (path : Path) (fault : PlaceFault)
  | repository (path : Path) (cause : Error)
  | outsideSourceRoot (path root : Path)
  | file (path : Path) (fault : FileFault)
  | records
  /-- A failure met while working on something. -/
  | during (work : String) (cause : Error)
deriving DecidableEq

namespace Error

/-- The wording of a failure, context layers first. -/
def message : Error → String
  | version fault => fault.message
  | name fault => fault.message
  | atom fault => fault.message
  | dependency fault => "invalid dependency expression: " ++ fault.message
  | sourceUri fault => "invalid SRC_URI: " ++ fault.message
  | sourceUriName url => "invalid SRC_URI: " ++ url ++ ": no file name"
  | eapi text => "invalid EAPI: " ++ text
  | keyword text => "invalid keyword: " ++ text
  | iuse text => "invalid IUSE entry: " ++ text
  | manifest path fault => "invalid Manifest " ++ path.text ++ ": " ++ fault.message
  | line path number fault => path.text ++ ":" ++ toString number ++ ": " ++ fault.message
  | sourceArrays path array count projects =>
    path.text ++ ": number of elements in CROS_WORKON_" ++ array ++ " (" ++ toString count ++
      ") and CROS_WORKON_PROJECT (" ++ toString projects ++ ") don't match"
  | ebuildOnly path number construct =>
    "unsupported: " ++ path.text ++ ":" ++ toString number ++ ": " ++ construct.message
  | forcedProvided fault => "invalid configuration: force_provided: " ++ fault.message
  | noMainRepository => "invalid configuration: PORTDIR is not defined"
  | settings => "invalid configuration"
  | ambiguousBlocks group =>
    "ambiguous dependency expression: cannot remove blocks under " ++ group
  | ambiguousFilter package group =>
    "ambiguous dependency expression: cannot filter dependencies for " ++ package ++
      " under " ++ group
  | undecided expression => "non-deterministic dependencies: " ++ expression
  | unsatisfiable var package value =>
    "non-deterministic dependencies: " ++ var ++ " of " ++ package ++
      " is unsatisfiable: " ++ value
  | noCandidate wanted => "no package satisfies " ++ wanted
  | cycle label => "circular dependencies involving " ++ label ++ " detected"
  | inconsistentSelection label got want =>
    "inconsistent package selection for " ++ label ++ ": got " ++ got ++ ", want " ++ want
  | profile fault => "profile not found: " ++ fault.message
  | ebuildPlace path fault => "repository " ++ path.text ++ ": " ++ fault.message
  | repository path cause => "repository " ++ path.text ++ ": " ++ cause.message
  | outsideSourceRoot path root => path.text ++ " is not under " ++ root.text
  | file path fault => path.text ++ ": " ++ fault.message
  | records => "dependency data"
  | during work cause => work ++ ": " ++ cause.message

/-- The innermost cause, below all context layers. -/
def innermostCause : Error → Error
  | during _ cause => cause.innermostCause
  | cause => cause

/-- Whether a failure is, outermost, a missing file. -/
def isMissingFile : Error → Bool
  | file _ .notFound => true
  | _ => false

/-- The place at which a grammar stopped, for failures that have one. -/
def position? (e : Error) : Option Position :=
  match e.innermostCause with
  | dependency fault => some fault.position
  | sourceUri fault => some fault.position
  | _ => none

end Error
end EbuildGraph
