import EbuildGraph.Package.Checkout
import EbuildGraph.Record.NestedSources
import EbuildGraph.Record.PostDependencies
import EbuildGraph.Resolver.Requirements

/-!
# Resolving atoms to records

The search goes depth first from the atoms asked for.  A label is begun before its
dependencies are resolved and finished after them, so that reaching a begun label again
is a cycle.  Post-dependencies wait until everything else is resolved.

Main definitions:

- {lit}`Resolver.select`: the package for an atom and its label.
- {lit}`Resolver.visit`: resolves an atom and all it leads to.
- {lit}`Resolver.resolve`: the records of all packages that atoms lead to.
-/

namespace EbuildGraph
namespace Resolver

/-! ## Labels -/

/-- A package selected for an atom.  The path of its ebuild is relative to the source
root. -/
structure Selection where
  package : Package
  path : Path
  label : String
deriving DecidableEq

/-- A package with its label, {lit}`//directory:slot`. -/
def locate (r : Resolver) (p : Package) : Except Error Selection :=
  match p.path.stripStart? r.settings.sourceRoot with
  | none => .error (.outsideSourceRoot p.path r.settings.sourceRoot)
  | some path =>
    let directory := path.parent?.getD ⟨""⟩
    .ok ⟨p, path, "//" ++ directory.text ++ ":" ++ p.mainSlot⟩

/-- The package for an atom and its label. -/
def select (r : Resolver) (atom : Atom) : Except Error Selection :=
  (r.best atom).bind r.locate

/-! ## State of the search -/

/-- How far the search has come with a label. -/
inductive Progress where
  | begun
  | finished (record : Record)
deriving DecidableEq

/-- The labels met so far and the post-dependencies that wait, in the order in which
they were found. -/
structure SearchState where
  nodes : NameMap Progress
  waiting : List (String × List Atom)
deriving DecidableEq

namespace SearchState

/-- Nothing met and nothing waiting. -/
def empty : SearchState := ⟨NameMap.empty, []⟩

/-- Marks a label as begun. -/
def begin (s : SearchState) (label : String) : SearchState :=
  { s with nodes := s.nodes.insert label .begun }

/-- Marks a label as finished. -/
def finish (s : SearchState) (label : String) (record : Record) : SearchState :=
  { s with nodes := s.nodes.insert label (.finished record) }

/-- Puts the post-dependencies of a label behind those that wait, if there are any. -/
def await (s : SearchState) (label : String) (post : List Atom) : SearchState :=
  if post.isEmpty then s else { s with waiting := s.waiting ++ [(label, post)] }

/-- Enters the labels of the post-dependencies in the record of a label. -/
def setPost (s : SearchState) (label : String) (labels : List String) : SearchState :=
  match s.nodes.get? label with
  | some (.finished record) => s.finish label { record with postDependencies := labels }
  | _ => s

/-- The records of the finished labels. -/
def records (s : SearchState) : Records :=
  NameMap.ofList (s.nodes.entries.filterMap fun e =>
    match e.2 with
    | .finished record => some (e.1, record)
    | .begun => none)

end SearchState

/-! ## Search -/

/-- Resolves an atom to a label. -/
abbrev Visitor := Atom → SearchState → Except Error (String × SearchState)

/-- Resolves atoms in order to a set of labels. -/
def visitAll (visitor : Visitor) :
    List Atom → SearchState → Except Error (NameSet × SearchState)
  | [], s => .ok (NameSet.empty, s)
  | atom :: rest, s => do
    let (label, s) ← visitor atom s
    let (labels, s) ← visitAll visitor rest s
    return (labels.insert label, s)

/-- Resolves what a package depends on, and makes its record.  Its post-dependencies are
left waiting. -/
def expand (r : Resolver) (visitor : Visitor) (selection : Selection) (s : SearchState) :
    Except Error (Record × SearchState) := do
  let p := selection.package
  let required ← r.requirements p
  let s := s.await selection.label required.post
  let (runtime, s) ← visitAll visitor required.runtime s
  let (build, s) ← visitAll visitor required.build s
  let localSources ← p.localSources
  let sourceFiles ← p.sourceFiles r.tree
  let record : Record := {
    name := p.name
    mainSlot := p.mainSlot
    ebuildPath := selection.path.text
    version := p.version.text
    buildDependencies := build.toList
    localSources := localSources.toList
    runtimeDependencies := runtime.toList
    sourceFiles
    postDependencies := [] }
  return (record, s)

/-- Resolves an atom and all it leads to, with labels nested at most as deep as the fuel. -/
def visit (r : Resolver) : Nat → Visitor
  | 0, atom, _ => .error (.noCandidate atom.text)
  | fuel + 1, atom, s => do
    let selection ← r.select atom
    let label := selection.label
    match s.nodes.get? label with
    | some .begun => throw (.cycle label)
    | some (.finished record) =>
      let got := selection.package.version.text
      if record.version = got then return (label, s)
      else throw (.inconsistentSelection label got record.version)
    | none =>
      let (record, s) ←
        (r.expand (visit r fuel) selection (s.begin label)).mapError (.during label)
      return (label, s.finish label record)

/-- Resolves the post-dependencies that wait, those found on the way included, at most as
many as the fuel. -/
def drain (visitor : Visitor) : Nat → SearchState → Except Error SearchState
  | 0, s => .ok s
  | fuel + 1, s =>
    match s.waiting with
    | [] => .ok s
    | (label, atoms) :: rest => do
      let (labels, s) ← (visitAll visitor atoms { s with waiting := rest }).mapError
        (.during (label ++ " (PDEPEND)"))
      drain visitor fuel (s.setPost label labels.toList)

/-! ## Bounds and results -/

/-- The number of ebuilds of a package in all repositories. -/
def ebuildCount (r : Resolver) (name : String) : Nat :=
  match r.repositories.ebuilds r.tree name with
  | .ok files => files.length
  | .error _ => 0

/-- A bound on the number of labels: there are no more of them than ebuilds. -/
def labelBound (r : Resolver) (atoms : List Atom) : Nat :=
  let names := atoms.map Atom.name ++
    r.repositories.repositories.flatMap fun repository => repository.packageNames r.tree
  names.foldr (fun name bound => r.ebuildCount name + bound) 0

/-- The records of all packages that atoms lead to, each with all post-dependencies that
it leads to and all sources nested in its own. -/
def resolve (r : Resolver) (atoms : List Atom) : Except Error Records := do
  let bound := r.labelBound atoms + 1
  let (_, s) ← visitAll (r.visit bound) atoms .empty
  let s ← drain (r.visit bound) bound s
  return Records.propagate (Records.addNestedSources s.records)

end Resolver
end EbuildGraph
