import EbuildGraph.Text.Quoted
import EbuildGraph.Text.Utf8

/-!
# Hexadecimal digests

Main definition:

- {lit}`decodeHex`: the bytes written as pairs of hexadecimal digits of either case.
-/

namespace EbuildGraph
namespace Text

/-- Why a text is no sequence of digit pairs. -/
inductive HexFault where
  | oddLength
  | notDigit (byte : UInt8) (index : Nat)
deriving DecidableEq, Repr

/-- The wording of a fault.  A byte is shown as the character of its number. -/
def HexFault.message : HexFault → String
  | oddLength => "Odd number of digits"
  | notDigit byte index =>
    "Invalid character " ++ quotedChar (Char.ofNat byte.toNat) ++ " at position " ++ toString index

/-- The value of a hexadecimal digit. -/
def hexValue? (b : UInt8) : Option Nat :=
  if 0x30 ≤ b && b ≤ 0x39 then some (b.toNat - 0x30)
  else if 0x41 ≤ b && b ≤ 0x46 then some (b.toNat - 0x37)
  else if 0x61 ≤ b && b ≤ 0x66 then some (b.toNat - 0x57)
  else none

/-- The value of a hexadecimal digit among characters. -/
def hexCharValue? (c : Char) : Option Nat :=
  if c.toNat < 128 then hexValue? (UInt8.ofNat c.toNat) else none

/-- The number that hexadecimal digits spell. -/
def hexNumber? (digits : List Char) : Option Nat :=
  digits.foldlM (fun n c => (hexCharValue? c).map (16 * n + ·)) 0

/-- Reads digit pairs that start at the given index. -/
def decodeHexFrom (index : Nat) : List UInt8 → Except HexFault (List UInt8)
  | [] => .ok []
  | [_] => .error .oddLength
  | high :: low :: rest =>
    match hexValue? high, hexValue? low with
    | none, _ => .error (.notDigit high index)
    | some _, none => .error (.notDigit low (index + 1))
    | some h, some l =>
      (decodeHexFrom (index + 2) rest).map (UInt8.ofNat (16 * h + l) :: ·)

/-- The bytes written as pairs of hexadecimal digits.  The length is checked first. -/
def decodeHex (s : String) : Except HexFault (List UInt8) :=
  let bytes := utf8Bytes s
  if bytes.length % 2 = 1 then .error .oddLength else decodeHexFrom 0 bytes

end Text
end EbuildGraph
