/-!
# TOML values

Settings are written in a small part of TOML: texts, whole numbers, truth values,
arrays and tables.

Main definitions:

- {lit}`Toml`: a value.
- {lit}`Toml.Statement`: a header or an assignment, which a text is a list of.
- {lit}`Toml.text?`, {lit}`Toml.elements?`, {lit}`Toml.field?`: what a value holds.
-/

namespace EbuildGraph

/-- How a table came into being, which decides how it may grow. -/
inductive TomlOrigin where
  /-- By a header of its own. -/
  | header
  /-- By the header of a table below it. -/
  | parent
  /-- By a dotted name in an assignment. -/
  | dotted
deriving DecidableEq, Repr

/-- A TOML value. -/
inductive Toml where
  | text (s : String)
  | integer (n : Int)
  | boolean (b : Bool)
  | array (elements : List Toml)
  | table (origin : TomlOrigin) (members : List (String × Toml))
  /-- Tables that headers in double brackets list, the last one last. -/
  | tables (earlier : List Toml) (last : List (String × Toml))

namespace Toml

instance : Inhabited Toml := ⟨table .header []⟩

/-- A dotted name: the names before the last dot and the one after it. -/
structure KeyPath where
  parents : List String
  name : String
deriving DecidableEq

/-- A part of a text. -/
inductive Statement where
  /-- A table in single brackets. -/
  | header (path : KeyPath)
  /-- One more table of a list, in double brackets. -/
  | element (path : KeyPath)
  /-- A value with its name. -/
  | assign (path : KeyPath) (value : Toml)

/-! ## What a value holds -/

/-- The text that a value is. -/
def text? : Toml → Option String
  | text s => some s
  | _ => none

/-- Whether a value is an array or a table with nothing in it. -/
def isEmpty : Toml → Bool
  | array elements => elements.isEmpty
  | table _ members => members.isEmpty
  | _ => false

/-- The choice that a value names: a text, or a table whose one member is empty and has
the name. -/
def choice? : Toml → Option String
  | text s => some s
  | table _ [(name, value)] => if value.isEmpty then some name else none
  | _ => none

/-- The elements of an array or a list of tables. -/
def elements? : Toml → Option (List Toml)
  | array elements => some elements
  | tables earlier last => some (earlier ++ [table .header last])
  | _ => none

/-- The members of a table. -/
def members? : Toml → Option (List (String × Toml))
  | table _ members => some members
  | _ => none

/-- Names the fields of a structured value, which is a table or an array of the values in
the order of the names.  Further members and elements do not count. -/
def fields? (names : List String) (value : Toml) : Option (List (String × Toml)) :=
  value.members?.or (value.elements?.map names.zip)

/-- Reads a field, or takes the given value when it is missing. -/
def field? {α : Type} (fields : List (String × Toml)) (name : String) (default : α)
    (read : Toml → Option α) : Option α :=
  match fields.lookup name with
  | some value => read value
  | none => some default

/-- The list of values that an array is. -/
def list? {α : Type} (read : Toml → Option α) (value : Toml) : Option (List α) :=
  value.elements?.bind fun elements => elements.mapM read

/-- The list of named values that a table is. -/
def entries? {α : Type} (read : Toml → Option α) (value : Toml) : Option (List (String × α)) :=
  value.members?.bind fun members =>
    members.mapM fun m => (read m.2).map fun x => (m.1, x)

end Toml
end EbuildGraph
