import EbuildGraph.Toml.Parser

/-!
# The table that statements build

A table grows under its header, by headers below it and by dotted names, and no name is
given twice.

Main definition:

- {lit}`Toml.parse?`: the table that a text describes.
-/

namespace EbuildGraph
namespace Toml

/-- The members of a table, with one entered in place of an earlier one of its name. -/
def setMember (name : String) (value : Toml) : List (String × Toml) → List (String × Toml)
  | [] => [(name, value)]
  | member :: rest =>
    if member.1 = name then (name, value) :: rest else member :: setMember name value rest

/-- A change of the members of a table with the given origin, which may be refused. -/
abbrev Change := TomlOrigin → List (String × Toml) → Option (List (String × Toml))

/-- Changes the table that names lead to.  Missing tables on the way are made.  A list of
tables stands for its last one.  Dotted names do not lead into tables with headers. -/
def changeAt (dotted : Bool) (change : Change) : List String → Change
  | [], origin, members => change origin members
  | name :: rest, _, members =>
    match members.lookup name with
    | none => do
      let origin : TomlOrigin := if dotted then .dotted else .parent
      let inner ← changeAt dotted change rest origin []
      return setMember name (table origin inner) members
    | some (table origin inner) =>
      if dotted && origin = .header then none
      else do
        let inner ← changeAt dotted change rest origin inner
        return setMember name (table origin inner) members
    | some (tables earlier last) => do
      let last ← changeAt dotted change rest .header last
      return setMember name (tables earlier last) members
    | some _ => none

/-- Begins the table of a header.  One that the header of a table below it made already
is taken over. -/
def beginTable (name : String) : Change := fun _ members =>
  match members.lookup name with
  | none => some (setMember name (table .header []) members)
  | some (table .parent inner) => some (setMember name (table .header inner) members)
  | some _ => none

/-- Begins one more table of a list of tables. -/
def beginElement (name : String) : Change := fun _ members =>
  match members.lookup name with
  | none => some (setMember name (tables [] []) members)
  | some (tables earlier last) =>
    some (setMember name (tables (earlier ++ [table .header last]) []) members)
  | some _ => none

/-- Enters a value under a new name.  Dotted names lead to tables that they made. -/
def enterValue (isDotted : Bool) (name : String) (value : Toml) : Change :=
  fun origin members =>
    if (isDotted && origin != .dotted) || (members.lookup name).isSome then none
    else some (setMember name value members)

/-- Enters a value in the table of a header. -/
def assignValue (path : KeyPath) (value : Toml) : Change :=
  changeAt true (enterValue (!path.parents.isEmpty) path.name value) path.parents

/-- The whole table and the names that lead to the table of the last header. -/
structure Draft where
  members : List (String × Toml)
  current : List String

/-- Adds one statement to a draft. -/
def Draft.add (draft : Draft) : Statement → Option Draft
  | .header path => do
    let members ← changeAt false (beginTable path.name) path.parents .header draft.members
    return ⟨members, path.parents ++ [path.name]⟩
  | .element path => do
    let members ← changeAt false (beginElement path.name) path.parents .header draft.members
    return ⟨members, path.parents ++ [path.name]⟩
  | .assign path value => do
    let members ← changeAt false (assignValue path value) draft.current .header draft.members
    return { draft with members }

/-- The table that statements build. -/
def ofStatements? (statements : List Statement) : Option Toml :=
  (statements.foldlM Draft.add ⟨[], []⟩).map fun draft => table .header draft.members

/-- The table that a text describes. -/
def parse? (s : String) : Option Toml :=
  (statements? s).bind ofStatements?

end Toml
end EbuildGraph
