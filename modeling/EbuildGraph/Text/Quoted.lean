import EbuildGraph.Text.Hidden

/-!
# Quoted text in messages

A message shows a text or a character between quotes.  The quote, the backslash
and the common control characters are written with a backslash, and every other
character without a glyph by its code point.

Main definitions:

- {lit}`quoted`: a text between double quotes.
- {lit}`quotedChar`: a character between single quotes.
-/

namespace EbuildGraph
namespace Text

/-- A natural number in lower-case hexadecimal digits. -/
def hexDigits (n : Nat) : List Char :=
  Nat.toDigits 16 n

/-- The spelling of one character between the given quotes. -/
def escapeChar (quote c : Char) : List Char :=
  if c = quote || c = '\\' then ['\\', c]
  else if c = '\n' then ['\\', 'n']
  else if c = '\t' then ['\\', 't']
  else if c = '\r' then ['\\', 'r']
  else if c.toNat = 0 then ['\\', '0']
  else if isHidden c then ['\\', 'u', '\x7b'] ++ hexDigits c.toNat ++ ['\x7d']
  else [c]

/-- A text between double quotes. -/
def quoted (s : String) : String :=
  String.ofList ('"' :: s.toList.flatMap (escapeChar '"') ++ ['"'])

/-- A character between single quotes. -/
def quotedChar (c : Char) : String :=
  String.ofList ('\'' :: escapeChar '\'' c ++ ['\''])

end Text
end EbuildGraph
