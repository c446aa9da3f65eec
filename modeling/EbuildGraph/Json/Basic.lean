/-!
# JSON values

Records hold texts, natural numbers, lists and tables.  Everything else that a JSON
text may contain is kept only as it is spelled.

Main definitions:

- {lit}`Json`: a value.
- {lit}`Json.print`: a value with its members on lines of their own.
-/

namespace EbuildGraph

/-- A JSON value.  The members of an object keep their order and may repeat a name. -/
inductive Json where
  | null
  | bool (b : Bool)
  | natural (n : Nat)
  | text (s : String)
  | array (elements : List Json)
  | object (members : List (String × Json))
  /-- A value outside the kinds above, as it is spelled: any other number, and a text
  or an object with half of a surrogate pair in it. -/
  | other (spelling : List Char)

namespace Json

instance : Inhabited Json := ⟨null⟩

/-! ## Printing -/

/-- The digits of a natural number. -/
def naturalChars (n : Nat) : List Char :=
  Nat.toDigits 10 n

/-- A control character by its number. -/
def controlChars (c : Char) : List Char :=
  ['\\', 'u', '0', '0', Nat.digitChar (c.toNat / 16), Nat.digitChar (c.toNat % 16)]

/-- How a character is written between double quotes. -/
def escapeChar (c : Char) : List Char :=
  if c = '"' then ['\\', '"']
  else if c = '\\' then ['\\', '\\']
  else if c = '\n' then ['\\', 'n']
  else if c = '\r' then ['\\', 'r']
  else if c = '\t' then ['\\', 't']
  else if c.toNat = 8 then ['\\', 'b']
  else if c.toNat = 12 then ['\\', 'f']
  else if c.toNat < 32 then controlChars c
  else [c]

/-- A text between double quotes. -/
def quotedChars (s : String) : List Char :=
  '"' :: s.toList.flatMap escapeChar ++ ['"']

/-- A new line with two spaces for each level. -/
def newLine (level : Nat) : List Char :=
  '\n' :: List.replicate (2 * level) ' '

mutual

/-- A value as it is written at a level of nesting. -/
def chars (level : Nat) : Json → List Char
  | null => "null".toList
  | bool b => (if b then "true" else "false").toList
  | natural n => naturalChars n
  | text s => quotedChars s
  | array [] => ['[', ']']
  | array (e :: rest) =>
    '[' :: newLine (level + 1) ++ chars (level + 1) e ++ elementChars (level + 1) rest ++
      newLine level ++ [']']
  | object [] => ['\x7b', '\x7d']
  | object ((name, value) :: rest) =>
    '\x7b' :: newLine (level + 1) ++ quotedChars name ++ [':', ' '] ++ chars (level + 1) value ++
      memberChars (level + 1) rest ++ newLine level ++ ['\x7d']
  | other spelling => spelling

/-- The elements of an array after the first. -/
def elementChars (level : Nat) : List Json → List Char
  | [] => []
  | e :: rest => ',' :: newLine level ++ chars level e ++ elementChars level rest

/-- The members of an object after the first. -/
def memberChars (level : Nat) : List (String × Json) → List Char
  | [] => []
  | (name, value) :: rest =>
    ',' :: newLine level ++ quotedChars name ++ [':', ' '] ++ chars level value ++
      memberChars level rest

end

/-- A value with its elements and members on lines of their own. -/
def print (j : Json) : String :=
  String.ofList (chars 0 j)

end Json
end EbuildGraph
