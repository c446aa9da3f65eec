import EbuildGraph.Json.Basic
import EbuildGraph.Text.Blank
import EbuildGraph.Text.Hex

/-!
# Reading JSON

Main definition:

- {lit}`Json.parse?`: the value that a text spells.
-/

namespace EbuildGraph
namespace Json

/-- Removes layout characters. -/
def skip (cs : List Char) : List Char :=
  cs.dropWhile Text.isLayout

/-! ## Texts -/

/-- The character that a letter behind a backslash stands for. -/
def escaped? (c : Char) : Option Char :=
  if c = '"' then some '"'
  else if c = '\\' then some '\\'
  else if c = '/' then some '/'
  else if c = 'b' then some (Char.ofNat 8)
  else if c = 'f' then some (Char.ofNat 12)
  else if c = 'n' then some '\n'
  else if c = 'r' then some '\r'
  else if c = 't' then some '\t'
  else none

/-- The code points up to the closing quote, and what follows it.  Halves of surrogate
pairs still stand apart. -/
def readUnits : List Char → Option (List Nat × List Char)
  | [] => none
  | '"' :: rest => some ([], rest)
  | '\\' :: 'u' :: a :: b :: c :: d :: rest => do
    let unit ← Text.hexNumber? [a, b, c, d]
    let (units, rest) ← readUnits rest
    return (unit :: units, rest)
  | '\\' :: c :: rest => do
    let c ← escaped? c
    let (units, rest) ← readUnits rest
    return (c.toNat :: units, rest)
  | c :: rest =>
    if c.toNat < 32 || c = '\\' then none
    else do
      let (units, rest) ← readUnits rest
      return (c.toNat :: units, rest)

/-- Whether a number is the first half of a surrogate pair. -/
def isHighSurrogate (n : Nat) : Bool :=
  0xD800 ≤ n && n < 0xDC00

/-- Whether a number is the second half of a surrogate pair. -/
def isLowSurrogate (n : Nat) : Bool :=
  0xDC00 ≤ n && n < 0xE000

/-- Joins the halves of surrogate pairs.  A half that stands alone is no character. -/
def joinUnits : List Nat → Option (List Char)
  | [] => some []
  | [n] => if isHighSurrogate n || isLowSurrogate n then none else some [Char.ofNat n]
  | n :: m :: rest =>
    if isHighSurrogate n && isLowSurrogate m then
      (joinUnits rest).map (Char.ofNat (0x10000 + (n - 0xD800) * 0x400 + (m - 0xDC00)) :: ·)
    else if isHighSurrogate n || isLowSurrogate n then none
    else (joinUnits (m :: rest)).map (Char.ofNat n :: ·)

/-! ## Numbers -/

/-- Splits digits off the front, at least one. -/
def takeDigits? (cs : List Char) : Option (List Char × List Char) :=
  match cs.takeWhile Char.isDigit with
  | [] => none
  | digits => some (digits, cs.dropWhile Char.isDigit)

/-- Splits the digits of a whole number off the front; a zero stands alone. -/
def takeWhole? : List Char → Option (List Char × List Char)
  | '0' :: rest => some (['0'], rest)
  | cs => takeDigits? cs

/-- What follows the fraction of a number, if there is one. -/
def skipFraction? : List Char → Option (List Char)
  | '.' :: rest => (takeDigits? rest).map Prod.snd
  | cs => some cs

/-- What follows the digits of an exponent. -/
def skipExponentDigits? : List Char → Option (List Char)
  | '+' :: rest => (takeDigits? rest).map Prod.snd
  | '-' :: rest => (takeDigits? rest).map Prod.snd
  | cs => (takeDigits? cs).map Prod.snd

/-- What follows the exponent of a number, if there is one. -/
def skipExponent? : List Char → Option (List Char)
  | 'e' :: rest => skipExponentDigits? rest
  | 'E' :: rest => skipExponentDigits? rest
  | cs => some cs

/-- The number that decimal digits spell. -/
def naturalOf (digits : List Char) : Nat :=
  digits.foldl (fun n c => 10 * n + (c.toNat - 0x30)) 0

/-- The characters of a list before a part at its end. -/
def before (cs rest : List Char) : List Char :=
  cs.take (cs.length - rest.length)

/-- Reads a number and what follows it. -/
def readNumber (cs : List Char) : Option (Json × List Char) := do
  let negative := cs.head? == some '-'
  let (digits, afterWhole) ← takeWhole? (if negative then cs.tail else cs)
  let afterFraction ← skipFraction? afterWhole
  let rest ← skipExponent? afterFraction
  if !negative && rest.length == afterWhole.length then return (natural (naturalOf digits), rest)
  else return (other (before cs rest), rest)

/-! ## Values -/

/-- The text of code points or, with half of a surrogate pair among them, what is
written before the given rest. -/
def ofUnits (units : List Nat) (cs rest : List Char) : Json :=
  match joinUnits units with
  | some joined => text (String.ofList joined)
  | none => other (before cs rest)

/-- The object of named members or, with half of a surrogate pair in a name, what is
written before the given rest. -/
def ofMembers (members : List (List Nat × Json)) (cs rest : List Char) : Json :=
  match members.mapM fun m => (joinUnits m.1).map fun name => (String.ofList name, m.2) with
  | some members => object members
  | none => other (before cs rest)

mutual

/-- Reads a value after layout and what follows it. -/
def readValue : Nat → List Char → Option (Json × List Char)
  | 0, _ => none
  | fuel + 1, cs =>
    let cs := skip cs
    match cs with
    | 'n' :: 'u' :: 'l' :: 'l' :: rest => some (null, rest)
    | 't' :: 'r' :: 'u' :: 'e' :: rest => some (bool true, rest)
    | 'f' :: 'a' :: 'l' :: 's' :: 'e' :: rest => some (bool false, rest)
    | '"' :: rest => do
      let (units, rest) ← readUnits rest
      return (ofUnits units cs rest, rest)
    | '[' :: rest =>
      match skip rest with
      | ']' :: rest => some (array [], rest)
      | rest => do
        let (elements, rest) ← readElements fuel rest
        return (array elements, rest)
    | '\x7b' :: rest =>
      match skip rest with
      | '\x7d' :: rest => some (object [], rest)
      | rest => do
        let (members, rest) ← readMembers fuel rest
        return (ofMembers members cs rest, rest)
    | cs => readNumber cs

/-- Reads the elements of an array that has some, up to its end. -/
def readElements : Nat → List Char → Option (List Json × List Char)
  | 0, _ => none
  | fuel + 1, cs => do
    let (element, rest) ← readValue fuel cs
    match skip rest with
    | ']' :: rest => return ([element], rest)
    | ',' :: rest =>
      let (elements, rest) ← readElements fuel rest
      return (element :: elements, rest)
    | _ => none

/-- Reads the members of an object that has some, up to its end. -/
def readMembers : Nat → List Char → Option (List (List Nat × Json) × List Char)
  | 0, _ => none
  | fuel + 1, cs =>
    match skip cs with
    | '"' :: rest => do
      let (name, rest) ← readUnits rest
      match skip rest with
      | ':' :: rest =>
        let (value, rest) ← readValue fuel rest
        match skip rest with
        | '\x7d' :: rest => return ([(name, value)], rest)
        | ',' :: rest =>
          let (members, rest) ← readMembers fuel rest
          return ((name, value) :: members, rest)
        | _ => none
      | _ => none
    | _ => none

end

/-- The value that a text spells, with nothing but layout around it. -/
def parse? (s : String) : Option Json := do
  let (value, rest) ← readValue (2 * s.toList.length + 2) s.toList
  if (skip rest).isEmpty then return value else none

end Json
end EbuildGraph
