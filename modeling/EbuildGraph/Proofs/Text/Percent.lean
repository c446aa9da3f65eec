import EbuildGraph.Proofs.Text.Utf8
import EbuildGraph.Text.Percent

/-!
# What percent decoding leaves alone

A percent sign in front of two hexadecimal digits is an escape, and a text without escapes stands
for itself.

Main definition:

- {lit}`HasEscape`: whether a text contains an escape.

Main results:

- Theorem {lit}`percentBytes_eq_self_iff`: decoding leaves the bytes of a text alone unless it
  contains an escape.
- Theorem {lit}`decodePercent_eq_self_iff`: a text stands for itself unless it contains an escape.
-/

namespace EbuildGraph
namespace Text

variable {α : Type}

/-- A list begins with two members that have a property. -/
def StartsWithTwo (p : α → Prop) (xs : List α) : Prop :=
  ∃ first second rest, xs = first :: second :: rest ∧ p first ∧ p second

/-- Two members at the beginning are a first one and another behind it. -/
theorem startsWithTwo_iff {p : α → Prop} {xs : List α} :
    StartsWithTwo p xs ↔ ∃ first rest, xs = first :: rest ∧ p first ∧
      ∃ second tail, rest = second :: tail ∧ p second ∧ True := by
  constructor
  · rintro ⟨first, second, tail, rfl, hfirst, hsecond⟩
    exact ⟨first, _, rfl, hfirst, second, tail, rfl, hsecond, trivial⟩
  · rintro ⟨first, _, rfl, hfirst, second, tail, rfl, hsecond, -⟩
    exact ⟨first, second, tail, rfl, hfirst, hsecond⟩

/-- Whether a character is a hexadecimal digit. -/
def IsHexDigit (c : Char) : Prop :=
  (hexCharValue? c).isSome = true

/-- Whether a text contains a percent sign that two hexadecimal digits follow. -/
def HasEscape (s : String) : Prop :=
  ∃ front rest, s.toList = front ++ '%' :: rest ∧ StartsWithTwo IsHexDigit rest

/-! ## Bytes -/

/-- Whether a byte is a hexadecimal digit. -/
def IsHexByte (b : UInt8) : Prop :=
  (hexValue? b).isSome = true

theorem not_isHexByte_of_le {b : UInt8} (h : 128 ≤ b.toNat) : ¬IsHexByte b := by
  have hnot (low high : UInt8) (hhigh : high.toNat < 128) : ¬(low ≤ b && b ≤ high) = true := by
    rw [between_eq_true_iff]
    omega
  rw [IsHexByte, hexValue?, if_neg (hnot _ _ (by decide)), if_neg (hnot _ _ (by decide)),
    if_neg (hnot _ _ (by decide))]
  exact Bool.false_ne_true

theorem percentBytes_cons_of_ne {b : UInt8} (h : b ≠ 0x25) (rest : List UInt8) :
    percentBytes (b :: rest) = b :: percentBytes rest := by
  match rest with
  | [] => rfl
  | [_] => rfl
  | _ :: _ :: _ => rw [percentBytes, if_neg h]

theorem percentBytes_append_of_ne {bytes : List UInt8} (h : ∀ b ∈ bytes, b ≠ 0x25)
    (rest : List UInt8) : percentBytes (bytes ++ rest) = bytes ++ percentBytes rest := by
  induction bytes with
  | nil => rfl
  | cons b bytes ih =>
    obtain ⟨hb, hbytes⟩ := List.forall_mem_cons.1 h
    rw [List.cons_append, percentBytes_cons_of_ne hb, ih hbytes, List.cons_append]

/-- An escape becomes one byte. -/
theorem percentBytes_escape {high low : UInt8} (hhigh : IsHexByte high) (hlow : IsHexByte low)
    (rest : List UInt8) :
    ∃ b, percentBytes (0x25 :: high :: low :: rest) = b :: percentBytes rest := by
  obtain ⟨h, hh⟩ := Option.isSome_iff_exists.1 hhigh
  obtain ⟨l, hl⟩ := Option.isSome_iff_exists.1 hlow
  exact ⟨_, by rw [percentBytes, if_pos rfl, hh, hl]⟩

/-- A percent sign that begins no escape stands for itself. -/
theorem percentBytes_percent {rest : List UInt8} (h : ¬StartsWithTwo IsHexByte rest) :
    percentBytes (0x25 :: rest) = 0x25 :: percentBytes rest := by
  match rest with
  | [] => rfl
  | [_] => rfl
  | high :: low :: rest =>
    rw [percentBytes, if_pos rfl]
    split
    · next hhigh hlow =>
      exact absurd ⟨high, low, rest, rfl, by simp [IsHexByte, hhigh], by simp [IsHexByte, hlow]⟩ h
    · rfl

/-- Decoding makes no text longer. -/
theorem length_percentBytes_le (bytes : List UInt8) :
    (percentBytes bytes).length ≤ bytes.length := by
  fun_induction percentBytes bytes
  all_goals simp only [List.length_cons, List.length_nil] at *
  all_goals omega

theorem percentBytes_percent_eq_self_iff {rest : List UInt8} :
    percentBytes (0x25 :: rest) = 0x25 :: rest ↔
      ¬StartsWithTwo IsHexByte rest ∧ percentBytes rest = rest := by
  by_cases h : StartsWithTwo IsHexByte rest
  · simp only [h, not_true_eq_false, false_and, iff_false]
    obtain ⟨high, low, rest, rfl, hhigh, hlow⟩ := h
    obtain ⟨b, hb⟩ := percentBytes_escape hhigh hlow rest
    intro heq
    have hlength := congrArg List.length (hb.symm.trans heq)
    have hle := length_percentBytes_le rest
    simp only [List.length_cons] at hlength
    omega
  · rw [percentBytes_percent h]
    simp [h]

/-! ## Characters -/

/-- A character is a hexadecimal digit exactly when its first byte is, and then it has no other. -/
theorem isHexByte_of_encode {c : Char} {b : UInt8} {more : List UInt8}
    (h : String.utf8EncodeChar c = b :: more) :
    (IsHexByte b ↔ IsHexDigit c) ∧ (IsHexByte b → more = []) := by
  rcases Nat.lt_or_ge c.toNat 128 with hlt | hge
  · rw [encode_of_lt hlt] at h
    obtain ⟨rfl, rfl⟩ := List.cons.inj h
    exact ⟨by rw [IsHexDigit, hexCharValue?, if_pos hlt, IsHexByte], fun _ => rfl⟩
  · have hb : ¬IsHexByte b :=
      not_isHexByte_of_le (le_of_mem_encode hge b (h ▸ List.mem_cons_self))
    have hc : ¬IsHexDigit c := by
      rw [IsHexDigit, hexCharValue?, if_neg (Nat.not_lt.2 hge)]
      exact Bool.false_ne_true
    exact ⟨iff_of_false hb hc, fun hdigit => absurd hdigit hb⟩

/-- A digit at the beginning of a text is a digit at the beginning of its bytes. -/
theorem exists_digit_iff {cs : List Char} (p : List UInt8 → Prop) :
    (∃ b rest, cs.flatMap String.utf8EncodeChar = b :: rest ∧ IsHexByte b ∧ p rest) ↔
      ∃ c tail, cs = c :: tail ∧ IsHexDigit c ∧ p (tail.flatMap String.utf8EncodeChar) := by
  cases cs with
  | nil => simp
  | cons c tail =>
    obtain ⟨b, more, hc⟩ := List.exists_cons_of_ne_nil (String.utf8EncodeChar_ne_nil (c := c))
    obtain ⟨hdigit, hmore⟩ := isHexByte_of_encode hc
    rw [List.flatMap_cons, hc, List.cons_append]
    constructor
    · rintro ⟨_, _, heq, hb, hrest⟩
      obtain ⟨rfl, rfl⟩ := List.cons.inj heq
      rw [hmore hb] at hrest
      exact ⟨c, tail, rfl, hdigit.1 hb, hrest⟩
    · rintro ⟨_, _, heq, hb, hrest⟩
      obtain ⟨rfl, rfl⟩ := List.cons.inj heq
      rw [hmore (hdigit.2 hb)]
      exact ⟨b, _, rfl, hdigit.2 hb, hrest⟩

theorem startsWithTwo_flatMap_iff {cs : List Char} :
    StartsWithTwo IsHexByte (cs.flatMap String.utf8EncodeChar) ↔ StartsWithTwo IsHexDigit cs := by
  simp only [startsWithTwo_iff, exists_digit_iff]

/-- Whether characters contain an escape is told at the first of them or behind it. -/
theorem exists_escape_cons_iff {c : Char} {cs : List Char} :
    (∃ front rest, c :: cs = front ++ '%' :: rest ∧ StartsWithTwo IsHexDigit rest) ↔
      (c = '%' ∧ StartsWithTwo IsHexDigit cs) ∨
        ∃ front rest, cs = front ++ '%' :: rest ∧ StartsWithTwo IsHexDigit rest := by
  constructor
  · rintro ⟨front, rest, heq, hrest⟩
    cases front with
    | nil =>
      obtain ⟨rfl, rfl⟩ := List.cons.inj heq
      exact Or.inl ⟨rfl, hrest⟩
    | cons first front =>
      obtain ⟨rfl, rfl⟩ := List.cons.inj heq
      exact Or.inr ⟨front, rest, rfl, hrest⟩
  · rintro (⟨rfl, hrest⟩ | ⟨front, rest, rfl, hrest⟩)
    · exact ⟨[], cs, rfl, hrest⟩
    · exact ⟨c :: front, rest, rfl, hrest⟩

theorem encode_percent : String.utf8EncodeChar '%' = [0x25] := by
  decide

/-- No other character has the byte of the percent sign. -/
theorem ne_percent_of_mem_encode {c : Char} (h : c ≠ '%') :
    ∀ b ∈ String.utf8EncodeChar c, b ≠ 0x25 := by
  rintro b hb rfl
  rcases Nat.lt_or_ge c.toNat 128 with hlt | hge
  · rw [encode_of_lt hlt, List.mem_singleton, ← UInt8.toNat_inj] at hb
    have hnumber : c.toNat = 37 := by
      simp at hb
      omega
    exact h (Char.toNat_inj.1 hnumber)
  · exact absurd (le_of_mem_encode hge _ hb) (by decide)

/-- Decoding leaves the bytes of characters alone unless these contain an escape. -/
theorem percentBytes_eq_self_iff (cs : List Char) :
    percentBytes (cs.flatMap String.utf8EncodeChar) = cs.flatMap String.utf8EncodeChar ↔
      ¬∃ front rest, cs = front ++ '%' :: rest ∧ StartsWithTwo IsHexDigit rest := by
  induction cs with
  | nil => simp [percentBytes]
  | cons c cs ih =>
    rw [exists_escape_cons_iff, not_or, ← ih, List.flatMap_cons]
    by_cases h : c = '%'
    · rw [h, encode_percent, List.singleton_append, percentBytes_percent_eq_self_iff,
        startsWithTwo_flatMap_iff]
      simp
    · rw [percentBytes_append_of_ne (ne_percent_of_mem_encode h)]
      simp [h]

/-- A text stands for itself unless it contains an escape. -/
theorem decodePercent_eq_self_iff {s : String} : decodePercent s = .ok s ↔ ¬HasEscape s := by
  rw [decodePercent, decodeUtf8_eq_ok_iff]
  exact percentBytes_eq_self_iff s.toList

end Text
end EbuildGraph
