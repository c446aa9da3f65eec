import EbuildGraph.Text.Hex

/-!
# Percent-encoded names

Main definition:

- {lit}`decodePercent`: a text with every {lit}`%XX` replaced by its byte.
-/

namespace EbuildGraph
namespace Text

/-- Replaces every percent sign that two hexadecimal digits follow by their byte;
any other percent sign stands for itself. -/
def percentBytes : List UInt8 → List UInt8
  | [] => []
  | [b] => [b]
  | [b, c] => [b, c]
  | b :: high :: low :: rest =>
    if b = 0x25 then
      match hexValue? high, hexValue? low with
      | some h, some l => UInt8.ofNat (16 * h + l) :: percentBytes rest
      | _, _ => b :: percentBytes (high :: low :: rest)
    else b :: percentBytes (high :: low :: rest)

/-- The text that a percent-encoded text stands for. -/
def decodePercent (s : String) : Except Utf8Fault String :=
  decodeUtf8 (percentBytes (utf8Bytes s))

end Text
end EbuildGraph
