import EbuildGraph.Text.Hex
import EbuildGraph.Toml.Basic

/-!
# Reading the statements of a TOML text

Main definition:

- {lit}`Toml.statements?`: the statements of a text.
-/

namespace EbuildGraph
namespace Toml

/-! ## Layout -/

/-- Whether a character separates tokens on a line. -/
def isSpace (c : Char) : Bool :=
  c == ' ' || c == '\t'

/-- Removes layout within a line. -/
def skipSpace (cs : List Char) : List Char :=
  cs.dropWhile isSpace

/-- Whether a character may stand in a comment or between quotes: control characters
other than the tab may not. -/
def isPlain (c : Char) : Bool :=
  c == '\t' || (32 ≤ c.toNat && c.toNat != 127)

/-- What follows the end of a line, which may have a comment before it.  The flag says
whether the comment has begun. -/
def endLine? : Bool → List Char → Option (List Char)
  | _, [] => some []
  | _, '\n' :: rest => some rest
  | _, '\r' :: '\n' :: rest => some rest
  | true, c :: rest => if isPlain c then endLine? true rest else none
  | false, c :: rest =>
    if c = '#' then endLine? true rest
    else if isSpace c then endLine? false rest
    else none

/-- Removes layout, line ends and comments between the elements of an array.  The flag
says whether a comment has begun. -/
def skipGap? : Bool → List Char → Option (List Char)
  | _, [] => some []
  | _, '\n' :: rest => skipGap? false rest
  | _, '\r' :: '\n' :: rest => skipGap? false rest
  | true, c :: rest => if isPlain c then skipGap? true rest else none
  | false, c :: rest =>
    if c = '#' then skipGap? true rest
    else if isSpace c then skipGap? false rest
    else some (c :: rest)

/-! ## Texts -/

/-- The character that a letter behind a backslash stands for. -/
def escaped? (c : Char) : Option Char :=
  if c = '"' then some '"'
  else if c = '\\' then some '\\'
  else if c = 'b' then some (Char.ofNat 8)
  else if c = 'f' then some (Char.ofNat 12)
  else if c = 'n' then some '\n'
  else if c = 'r' then some '\r'
  else if c = 't' then some '\t'
  else none

/-- The character with the code point that hexadecimal digits spell. -/
def codePoint? (digits : List Char) : Option Char :=
  (Text.hexNumber? digits).bind fun n =>
    if n.isValidChar then some (Char.ofNat n) else none

/-- The characters up to a closing double quote, and what follows it. -/
def readBasic? : List Char → Option (List Char × List Char)
  | [] => none
  | '"' :: rest => some ([], rest)
  | '\\' :: 'u' :: a :: b :: c :: d :: rest => do
    let x ← codePoint? [a, b, c, d]
    let (cs, rest) ← readBasic? rest
    return (x :: cs, rest)
  | '\\' :: 'U' :: a :: b :: c :: d :: e :: f :: g :: h :: rest => do
    let x ← codePoint? [a, b, c, d, e, f, g, h]
    let (cs, rest) ← readBasic? rest
    return (x :: cs, rest)
  | '\\' :: c :: rest => do
    let x ← escaped? c
    let (cs, rest) ← readBasic? rest
    return (x :: cs, rest)
  | c :: rest =>
    if isPlain c && c != '\\' then do
      let (cs, rest) ← readBasic? rest
      return (c :: cs, rest)
    else none

/-- The characters up to a closing single quote, and what follows it. -/
def readLiteral? : List Char → Option (List Char × List Char)
  | [] => none
  | '\'' :: rest => some ([], rest)
  | c :: rest =>
    if isPlain c then do
      let (cs, rest) ← readLiteral? rest
      return (c :: cs, rest)
    else none

/-! ## Names -/

/-- Whether a character may stand in a name without quotes. -/
def isBareKeyChar (c : Char) : Bool :=
  c.isAlphanum || c == '_' || c == '-'

/-- Reads one name. -/
def readName? : List Char → Option (String × List Char)
  | '"' :: rest => (readBasic? rest).map fun r => (String.ofList r.1, r.2)
  | '\'' :: rest => (readLiteral? rest).map fun r => (String.ofList r.1, r.2)
  | cs =>
    match cs.takeWhile isBareKeyChar with
    | [] => none
    | name => some (String.ofList name, cs.dropWhile isBareKeyChar)

/-- The number of arrays that may stand one inside the other, and of names that dots
may join. -/
def maxNesting : Nat := 79

/-- Reads names with dots between them, at most as many as the given number. -/
def readPath? : Nat → List Char → Option (KeyPath × List Char)
  | 0, _ => none
  | room + 1, cs => do
    let (name, rest) ← readName? (skipSpace cs)
    match skipSpace rest with
    | '.' :: rest =>
      let (path, rest) ← readPath? room rest
      return ({ path with parents := name :: path.parents }, rest)
    | rest => return (⟨[], name⟩, rest)

/-! ## Values -/

/-- Splits digits off the front; single underscores may stand between them. -/
def takeDigits (isDigit : Char → Bool) : List Char → List Char × List Char
  | '_' :: c :: rest =>
    if isDigit c then
      let (digits, rest) := takeDigits isDigit rest
      (c :: digits, rest)
    else ([], '_' :: c :: rest)
  | c :: rest =>
    if isDigit c then
      let (digits, rest) := takeDigits isDigit rest
      (c :: digits, rest)
    else ([], c :: rest)
  | [] => ([], [])

/-- The number that digits spell in a base. -/
def numberOf (base : Nat) (digits : List Char) : Nat :=
  digits.foldl (fun n c => base * n + (Text.hexCharValue? c).getD 0) 0

/-- Reads the digits of a number in a base. -/
def readDigits? (base : Nat) (cs : List Char) : Option (Nat × List Char) :=
  let isDigit (c : Char) : Bool := (Text.hexCharValue? c).any fun v => v < base
  match cs with
  | [] => none
  | first :: _ =>
    if !isDigit first then none
    else
      let (digits, rest) := takeDigits isDigit cs
      some (numberOf base digits, rest)

/-- Reads a whole number without a sign; a decimal zero stands alone. -/
def readUnsigned? : List Char → Option (Nat × List Char)
  | '0' :: rest => some (0, rest)
  | cs => readDigits? 10 cs

/-- Reads a whole number of 64 bits. -/
def readInteger? (cs : List Char) : Option (Toml × List Char) := do
  let (n, rest) ← match cs with
    | '0' :: 'x' :: rest => (readDigits? 16 rest).map fun r => (Int.ofNat r.1, r.2)
    | '0' :: 'o' :: rest => (readDigits? 8 rest).map fun r => (Int.ofNat r.1, r.2)
    | '0' :: 'b' :: rest => (readDigits? 2 rest).map fun r => (Int.ofNat r.1, r.2)
    | '-' :: rest => (readUnsigned? rest).map fun r => (-Int.ofNat r.1, r.2)
    | '+' :: rest => (readUnsigned? rest).map fun r => (Int.ofNat r.1, r.2)
    | cs => (readUnsigned? cs).map fun r => (Int.ofNat r.1, r.2)
  if Int64.minValue.toInt ≤ n && n ≤ Int64.maxValue.toInt then return (integer n, rest) else none

mutual

/-- Reads a value, in which the given number of arrays may stand one inside the other,
and what follows it. -/
def readValue? : Nat → Nat → List Char → Option (Toml × List Char)
  | 0, _, _ => none
  | fuel + 1, room, cs =>
    match cs with
    | '"' :: rest => (readBasic? rest).map fun r => (text (String.ofList r.1), r.2)
    | '\'' :: rest => (readLiteral? rest).map fun r => (text (String.ofList r.1), r.2)
    | 't' :: 'r' :: 'u' :: 'e' :: rest => some (boolean true, rest)
    | 'f' :: 'a' :: 'l' :: 's' :: 'e' :: rest => some (boolean false, rest)
    | '[' :: rest =>
      if room = 0 then none
      else (readElements? fuel (room - 1) rest).map fun r => (array r.1, r.2)
    | cs => readInteger? cs

/-- Reads the elements of an array up to its end; a comma may follow the last one. -/
def readElements? : Nat → Nat → List Char → Option (List Toml × List Char)
  | 0, _, _ => none
  | fuel + 1, room, cs => do
    match ← skipGap? false cs with
    | ']' :: rest => return ([], rest)
    | cs =>
      let (element, rest) ← readValue? fuel room cs
      match ← skipGap? false rest with
      | ']' :: rest => return ([element], rest)
      | ',' :: rest =>
        let (elements, rest) ← readElements? fuel room rest
        return (element :: elements, rest)
      | _ => none

end

/-! ## Statements -/

/-- Reads a header after its opening brackets. -/
def readHeader? (make : KeyPath → Statement) (closing : List Char) (cs : List Char) :
    Option (Statement × List Char) := do
  let (path, rest) ← readPath? maxNesting cs
  let rest ← closing.isPrefixOf? rest
  return (make path, rest)

/-- Reads an assignment. -/
def readAssignment? (cs : List Char) : Option (Statement × List Char) := do
  let (path, rest) ← readPath? maxNesting cs
  match rest with
  | '=' :: rest =>
    let (value, rest) ← readValue? (2 * cs.length) maxNesting (skipSpace rest)
    return (.assign path value, rest)
  | _ => none

/-- Reads one statement. -/
def readStatement? : List Char → Option (Statement × List Char)
  | '[' :: '[' :: rest => readHeader? .element [']', ']'] rest
  | '[' :: rest => readHeader? .header [']'] rest
  | cs => readAssignment? cs

/-- Reads lines, at most as many as the fuel. -/
def readLines? : Nat → List Char → Option (List Statement)
  | 0, _ => none
  | fuel + 1, cs =>
    match skipSpace cs with
    | [] => some []
    | cs =>
      match endLine? false cs with
      | some rest => readLines? fuel rest
      | none => do
        let (statement, rest) ← readStatement? cs
        let rest ← endLine? false rest
        let statements ← readLines? fuel rest
        return statement :: statements

/-- The statements of a text, which may begin with a byte order mark. -/
def statements? (s : String) : Option (List Statement) :=
  let cs := match s.toList with
    | '\uFEFF' :: rest => rest
    | cs => cs
  readLines? (cs.length + 1) cs

end Toml
end EbuildGraph
