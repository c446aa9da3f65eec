import EbuildGraph.Configuration.Source

/-!
# Overrides

Some packages cannot be handled from their metadata alone.  Overrides name them and
say what holds instead.

Main definitions:

- {lit}`Overrides`: flags, provided packages, ebuilds never selected, dependencies
  replaced or added, and packages that are never installable.
- {lit}`Overrides.standard`: the overrides in force when none are given.
- {lit}`Overrides.source`: the part that is configuration.
-/

namespace EbuildGraph

/-- A rule for dependencies that no package can satisfy.  No slots stand for any slot. -/
structure Exclusion where
  package : String := ""
  slots : List String := []
  useDependency : Option String := none
  useDependencyStart : Option String := none
deriving DecidableEq, Inhabited

namespace Exclusion

/-- Whether an optional rule accepts a text.  A missing rule accepts every text. -/
def accepts (rule : Option String) (test : String → Bool) : Bool :=
  (rule.map test).getD true

/-- Whether the rule for USE dependencies fits.  It looks at the first one only. -/
def fitsUse (rule : Exclusion) (useDependencies : List String) : Bool :=
  if rule.useDependency.isNone && rule.useDependencyStart.isNone then true
  else
    match useDependencies with
    | [] => false
    | first :: _ =>
      accepts rule.useDependency (first == ·) &&
        accepts rule.useDependencyStart fun start => start.toList.isPrefixOf first.toList

/-- Whether a dependency falls under the rule. -/
def fits (rule : Exclusion) (atom : Atom) : Bool :=
  atom.name == rule.package &&
    (rule.slots.isEmpty || rule.slots.contains atom.slot) &&
    rule.fitsUse atom.useDependencies

end Exclusion

/-- Adjustments for packages that cannot be handled from their metadata alone. -/
structure Overrides where
  /-- Flags that are on for every package. -/
  forceUse : List String := []
  /-- Names of packages to treat as installed. -/
  forceProvided : List String := []
  /-- Names of ebuild files that are never selected. -/
  invalidEbuilds : List String := []
  /-- Runtime dependencies that replace all dependencies of a package. -/
  forcedDependencies : NameMap (List String) := NameMap.empty
  /-- Further dependencies by package and variable. -/
  extraDependencies : NameMap (NameMap (List String)) := NameMap.empty
  /-- Dependencies that no package can satisfy. -/
  unavailable : List Exclusion := []
deriving DecidableEq, Inhabited

namespace Overrides

/-- The overrides without any. -/
def none : Overrides := {}

/-- The overrides in force when none are given. -/
def standard : Overrides where
  forceUse := [
    "board_use_arm64-generic",
    "chromeos_kernel_family_chromeos",
    "cpu_flags_arm_neon",
    "elibc_glibc",
    "input_devices_evdev",
    "kernel_linux",
    "linux_firmware_iwlwifi-all",
    "linux_firmware_rt2870",
    "linux_firmware_rtl8153",
    "ozone_platform_default_gbm",
    "ozone_platform_gbm",
    "ozone_platform_headless",
    "python_single_target_python3_6",
    "python_targets_python3_6",
    "ruby_targets_ruby25",
    "video_cards_llvmpipe"]
  forceProvided := ["virtual/rust-binaries", "virtual/rust"]
  invalidEbuilds := ["chromeos-lacros-9999.ebuild"]
  forcedDependencies := NameMap.ofList [
    ("virtual/chromeos-bootcomplete", ["chromeos-base/bootcomplete-login"]),
    ("virtual/editor", ["app-editors/vim"]),
    ("virtual/logger", ["app-admin/rsyslog"]),
    ("virtual/update-policy", ["chromeos-base/update-policy-chromeos"])]
  extraDependencies := NameMap.ofList [
    ("app-text/poppler", NameMap.ofList [("DEPEND", ["dev-libs/boost"])]),
    ("dev-python/m2crypto", NameMap.ofList [("DEPEND", ["dev-lang/python:3.6"])]),
    ("x11-libs/libXau", NameMap.ofList [("RDEPEND", ["x11-base/xorg-proto"])])]
  unavailable := [
    { package := "dev-lang/python", slots := ["2.7", "3.7", "3.8"] },
    { package := "dev-libs/libverto", useDependency := some "libevent" },
    { package := "dev-python/m2crypto", useDependencyStart := some "python_targets_python3_7" },
    { package := "media-libs/jpeg" }]

/-- A package to treat as installed; it counts as version {lit}`0`. -/
def providedPackage (name : String) : Except Error PackageVersion :=
  match checkQualified name with
  | .error fault => .error (.forcedProvided fault)
  | .ok () => .ok ⟨name, Version.zero⟩

/-- The flags and provided packages as a source of configuration. -/
def source (o : Overrides) : Except Error Configuration.Source :=
  (o.forceProvided.mapM providedPackage).map (.fixed (Text.unwords o.forceUse))

/-- Reads a list of atoms. -/
def readAtoms (texts : List String) : Except Error (List Atom) :=
  texts.mapM fun s => (Atom.parse s).mapError .atom

/-- The runtime dependencies that replace those of a package, if any do. -/
def forcedAtoms (o : Overrides) (package : String) : Except Error (Option (List Atom)) :=
  match o.forcedDependencies.get? package with
  | Option.none => .ok Option.none
  | some texts => (readAtoms texts).map some

/-- Further dependencies of a package through a variable. -/
def extraAtoms (o : Overrides) (package var : String) : Except Error (List Atom) :=
  match (o.extraDependencies.get? package).bind fun vars => vars.get? var with
  | Option.none => .ok []
  | some texts => readAtoms texts

/-- Whether the ebuild file of that name is never selected. -/
def barsEbuild (o : Overrides) (fileName : String) : Bool :=
  o.invalidEbuilds.contains fileName

/-- Whether no package can satisfy a dependency. -/
def excludes (o : Overrides) (atom : Atom) : Bool :=
  o.unavailable.any fun rule => rule.fits atom

end Overrides
end EbuildGraph
