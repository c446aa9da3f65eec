import EbuildGraph.Package.Basic

/-!
# The checkouts that a package is built from

They lie below the source root, and three variables of the ebuild name
them side by side, with bars between the elements: the project, the place of the
checkout, and the subdirectories that are used of it.

Main definitions:

- {lit}`Checkout.directories`: the directories that a package uses of a checkout.
- {lit}`Package.localSources`: the labels of the sources that a package is built from.
-/

namespace EbuildGraph

/-- A checkout as an ebuild names it.  Place and subdirectories may be empty. -/
structure Checkout where
  project : String
  place : String
  subdirectories : String
deriving DecidableEq

namespace Checkout

/-- Whether a text begins with another. -/
def startsWith (s start : String) : Bool :=
  start.toList.isPrefixOf s.toList

/-- The place of a checkout.  One ebuild names it relative to the wrong directory. -/
def actualPlace (c : Checkout) : String :=
  if c.project = "cros/platform/chromiumos-assets" && c.place = "chromiumos-assets" then
    "platform/chromiumos-assets"
  else c.place

/-- The directory of a checkout below the source root.  Without a place it is that of
the project, if the project has one. -/
def directory? (category : String) (c : Checkout) : Option String :=
  let place := c.actualPlace
  if place = "" then Text.dropStart? "cros/" c.project
  else if category = "chromeos-base" then some place
  else some ((Text.dropStart? "../" place).getD ("third_party/" ++ place))

/-- Directories that are used whole although subdirectories are named. -/
def wholeDirectories : List String := ["platform/vboot_reference", "third_party/coreboot"]

/-- Whether a directory is divided into its subdirectories. -/
def isDivided (directory : String) : Bool :=
  startsWith directory "platform2" && !wholeDirectories.contains directory

/-- The directory that an element of the list of subdirectories stands for. -/
def subdirectory? (directory element : String) : Option String :=
  if element = ".gn" then some directory
  else if element = ".clang-format" then none
  else if element = "chromeos-config/cros_config_host" then some (directory ++ "/chromeos-config")
  else some (directory ++ "/" ++ element)

/-- The parts of a directory that are used. -/
def divide (directory subdirectories : String) : List String :=
  if subdirectories = "" || !isDivided directory then [directory]
  else ((Text.fields ' ' subdirectories).filter (· != "")).filterMap (subdirectory? directory)

/-- Directories that come with a project wherever it is checked out. -/
def companions (project : String) : List String :=
  if project = "cros/third_party/kernel" then
    ["third_party/chromiumos-overlay/eclass/cros-kernel"]
  else []

/-- The directories that a package of the given category uses of a checkout. -/
def directories (category : String) (c : Checkout) : List String :=
  (match c.directory? category with
    | some directory => divide directory c.subdirectories
    | none => []) ++ companions c.project

end Checkout

namespace Package

/-- The elements of a variable that holds an array; the empty value has none. -/
def elements (p : Package) (var : String) : List String :=
  let value := Variables.value p.metadata var
  if value = "" then [] else Text.fields '|' value

/-- Checks that an array is empty or has an element for every project. -/
def checkCount (p : Package) (array : String) (values projects : List String) :
    Except Error Unit :=
  if !values.isEmpty && values.length != projects.length then
    .error (.sourceArrays p.path array values.length projects.length)
  else .ok ()

/-- The checkouts that the ebuild names. -/
def checkouts (p : Package) : Except Error (List Checkout) := do
  let projects := p.elements "CROS_WORKON_PROJECT"
  let places := p.elements "CROS_WORKON_LOCALNAME"
  let subdirectories := p.elements "CROS_WORKON_SUBTREE"
  p.checkCount "LOCALNAME" places projects
  p.checkCount "SUBTREE" subdirectories projects
  return projects.zipIdx.map fun entry =>
    ⟨entry.1, (places[entry.2]?).getD "", (subdirectories[entry.2]?).getD ""⟩

/-- The directory that a package uses in place of another: one package has a checkout
of its own. -/
def pinned (p : Package) (directory : String) : String :=
  if p.name = "dev-rust/sys_util_core" && directory = "platform/crosvm" then
    "platform/crosvm-sys_util_core"
  else directory

/-- The label of a source directory. -/
def sourceLabel (directory : String) : String :=
  "//" ++ directory ++ ":src"

/-- Packages that need the build tools although no eclass of theirs says so. -/
def toolUsers : List String := ["dev-libs/gobject-introspection"]

/-- The labels of sources outside the source root. -/
def outsideLabels (p : Package) : List String :=
  (if p.inherits "chromium-source" then ["@chrome//:src"] else []) ++
    (if toolUsers.contains p.name || p.inherits "platform" || p.inherits "dlc" then
      ["@chromite//:src"]
    else [])

/-- The labels of the sources that a package is built from. -/
def localSources (p : Package) : Except Error NameSet :=
  p.checkouts.map fun checkouts =>
    let directories := checkouts.flatMap (Checkout.directories p.category)
    NameSet.ofList (directories.map (fun d => sourceLabel (p.pinned d)) ++ p.outsideLabels)

end Package
end EbuildGraph
