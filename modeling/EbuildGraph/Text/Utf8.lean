/-!
# Reading UTF-8

Main definitions:

- {lit}`utf8Bytes`: the UTF-8 form of a text.
- {lit}`decodeUtf8`: the text of a byte sequence, or where and how it stops
  being well formed.
-/

namespace EbuildGraph
namespace Text

/-- What is wrong with a byte sequence, and the index of the sequence at fault. -/
inductive Utf8Fault where
  /-- The bytes counted from the index begin no character. -/
  | illFormed (length index : Nat)
  /-- The input ends inside the character that starts at the index. -/
  | truncated (index : Nat)
deriving DecidableEq, Repr

/-- The wording of a fault. -/
def Utf8Fault.message : Utf8Fault → String
  | illFormed length index =>
    "invalid utf-8 sequence of " ++ toString length ++ " bytes from index " ++ toString index
  | truncated index => "incomplete utf-8 byte sequence from index " ++ toString index

/-- The UTF-8 form of a text. -/
def utf8Bytes (s : String) : List UInt8 :=
  s.toList.flatMap String.utf8EncodeChar

/-- Whether a byte continues a character. -/
def isContinuation (b : UInt8) : Bool :=
  0x80 ≤ b && b ≤ 0xBF

/-- Whether a byte may follow the first byte of a character of three or four bytes. -/
def mayFollow (lead next : UInt8) : Bool :=
  if lead = 0xE0 then 0xA0 ≤ next && next ≤ 0xBF
  else if lead = 0xED then 0x80 ≤ next && next ≤ 0x9F
  else if lead = 0xF0 then 0x90 ≤ next && next ≤ 0xBF
  else if lead = 0xF4 then 0x80 ≤ next && next ≤ 0x8F
  else isContinuation next

/-- The payload of a continuation byte. -/
def payload (b : UInt8) : Nat :=
  b.toNat % 64

/-- Reads characters from bytes that start at the given index. -/
def decodeUtf8From (index : Nat) : List UInt8 → Except Utf8Fault (List Char)
  | [] => .ok []
  | b :: rest =>
    if b < 0x80 then
      (decodeUtf8From (index + 1) rest).map (Char.ofNat b.toNat :: ·)
    else if 0xC2 ≤ b && b ≤ 0xDF then
      match rest with
      | [] => .error (.truncated index)
      | b₁ :: rest =>
        if !isContinuation b₁ then .error (.illFormed 1 index)
        else (decodeUtf8From (index + 2) rest).map
          (Char.ofNat ((b.toNat - 0xC0) * 64 + payload b₁) :: ·)
    else if 0xE0 ≤ b && b ≤ 0xEF then
      match rest with
      | [] => .error (.truncated index)
      | b₁ :: rest =>
        if !mayFollow b b₁ then .error (.illFormed 1 index)
        else
          match rest with
          | [] => .error (.truncated index)
          | b₂ :: rest =>
            if !isContinuation b₂ then .error (.illFormed 2 index)
            else (decodeUtf8From (index + 3) rest).map
              (Char.ofNat (((b.toNat - 0xE0) * 64 + payload b₁) * 64 + payload b₂) :: ·)
    else if 0xF0 ≤ b && b ≤ 0xF4 then
      match rest with
      | [] => .error (.truncated index)
      | b₁ :: rest =>
        if !mayFollow b b₁ then .error (.illFormed 1 index)
        else
          match rest with
          | [] => .error (.truncated index)
          | b₂ :: rest =>
            if !isContinuation b₂ then .error (.illFormed 2 index)
            else
              match rest with
              | [] => .error (.truncated index)
              | b₃ :: rest =>
                if !isContinuation b₃ then .error (.illFormed 3 index)
                else (decodeUtf8From (index + 4) rest).map
                  (Char.ofNat ((((b.toNat - 0xF0) * 64 + payload b₁) * 64 + payload b₂) * 64 +
                    payload b₃) :: ·)
    else .error (.illFormed 1 index)

/-- The text that a byte sequence encodes. -/
def decodeUtf8 (bytes : List UInt8) : Except Utf8Fault String :=
  (decodeUtf8From 0 bytes).map String.ofList

end Text
end EbuildGraph
