/-!
# Sizes in decimal

Main definition:

- {lit}`parseSize`: an unsigned 64-bit number, with an optional plus sign.
-/

namespace EbuildGraph
namespace Text

/-- Why a text is no unsigned 64-bit number. -/
inductive SizeFault where
  | empty
  | invalidDigit
  | tooLarge
deriving DecidableEq, Repr

/-- The wording of a fault. -/
def SizeFault.message : SizeFault → String
  | empty => "cannot parse integer from empty string"
  | invalidDigit => "invalid digit found in string"
  | tooLarge => "number too large to fit in target type"

/-- Appends digits to a number.  Each digit is checked before the number is
allowed to leave its range. -/
def readDigits (value : Nat) : List Char → Except SizeFault UInt64
  | [] => .ok (UInt64.ofNat value)
  | c :: rest =>
    if !c.isDigit then .error .invalidDigit
    else
      let next := 10 * value + (c.toNat - 0x30)
      if next < 2 ^ 64 then readDigits next rest else .error .tooLarge

/-- The number that a text spells. -/
def parseSize (s : String) : Except SizeFault UInt64 :=
  match s.toList with
  | [] => .error .empty
  | ['+'] => .error .invalidDigit
  | '+' :: digits => readDigits 0 digits
  | digits => readDigits 0 digits

end Text
end EbuildGraph
