import EbuildGraph.Proofs.Success
import EbuildGraph.Text.Utf8

/-!
# UTF-8 is read back

A character takes one to four bytes, and the first of them tells how many.  Reading takes the
characters one after another; it succeeds on the UTF-8 forms of texts and on no other bytes.

Main results:

- Theorems {lit}`decodeUtf8From_one` to {lit}`decodeUtf8From_four`: how one character is read.
- Theorem {lit}`decodeUtf8From_encode`: the UTF-8 form of a character is read as the character.
- Theorem {lit}`decodeUtf8_eq_ok_iff`: the bytes that are read as a text are its UTF-8 form.
-/

namespace EbuildGraph
namespace Text

/-! ## Bytes as numbers -/

theorem between_eq_true_iff {low high b : UInt8} :
    (low ≤ b && b ≤ high) = true ↔ low.toNat ≤ b.toNat ∧ b.toNat ≤ high.toNat := by
  simp [UInt8.le_iff_toNat_le]

theorem isContinuation_eq_true_iff {b : UInt8} :
    isContinuation b = true ↔ 128 ≤ b.toNat ∧ b.toNat ≤ 191 :=
  between_eq_true_iff

/-- The second byte of a long character continues it, and with the first byte it rules out shorter
forms, surrogates, and numbers above the last character. -/
theorem mayFollow_eq_true_iff {lead next : UInt8} :
    mayFollow lead next = true ↔
      (128 ≤ next.toNat ∧ next.toNat ≤ 191) ∧
      (lead.toNat = 224 → 160 ≤ next.toNat) ∧ (lead.toNat = 237 → next.toNat ≤ 159) ∧
      (lead.toNat = 240 → 144 ≤ next.toNat) ∧ (lead.toNat = 244 → next.toNat ≤ 143) := by
  simp only [mayFollow, isContinuation, ← UInt8.toNat_inj, UInt8.reduceToNat]
  split_ifs <;> simp only [between_eq_true_iff, UInt8.reduceToNat] <;> omega

/-! ## Reading one character -/

section

variable {b b₁ b₂ b₃ : UInt8} (index : Nat) (rest : List UInt8)

theorem decodeUtf8From_one (h : b.toNat ≤ 127) :
    decodeUtf8From index (b :: rest) =
      (decodeUtf8From (index + 1) rest).map (Char.ofNat b.toNat :: ·) := by
  have hone : b < 0x80 := UInt8.lt_iff_toNat_lt.2 (Nat.lt_succ_of_le h)
  rw [decodeUtf8From.eq_def]
  simp only [hone, if_true]

theorem decodeUtf8From_two (h : 194 ≤ b.toNat ∧ b.toNat ≤ 223) (h₁ : isContinuation b₁ = true) :
    decodeUtf8From index (b :: b₁ :: rest) =
      (decodeUtf8From (index + 2) rest).map
        (Char.ofNat ((b.toNat - 192) * 64 + payload b₁) :: ·) := by
  have hone : ¬b < 0x80 := by
    simp only [UInt8.lt_iff_toNat_lt, UInt8.reduceToNat]; omega
  have htwo : (0xC2 ≤ b && b ≤ 0xDF) = true := between_eq_true_iff.2 h
  rw [decodeUtf8From.eq_def]
  simp only [if_neg hone, if_pos htwo, h₁]
  rfl

theorem decodeUtf8From_three (h : 224 ≤ b.toNat ∧ b.toNat ≤ 239) (h₁ : mayFollow b b₁ = true)
    (h₂ : isContinuation b₂ = true) :
    decodeUtf8From index (b :: b₁ :: b₂ :: rest) =
      (decodeUtf8From (index + 3) rest).map
        (Char.ofNat (((b.toNat - 224) * 64 + payload b₁) * 64 + payload b₂) :: ·) := by
  have hone : ¬b < 0x80 := by
    simp only [UInt8.lt_iff_toNat_lt, UInt8.reduceToNat]; omega
  have htwo : ¬(0xC2 ≤ b && b ≤ 0xDF) = true := by
    simp only [between_eq_true_iff, UInt8.reduceToNat]; omega
  have hthree : (0xE0 ≤ b && b ≤ 0xEF) = true := between_eq_true_iff.2 h
  rw [decodeUtf8From.eq_def]
  simp only [if_neg hone, if_neg htwo, if_pos hthree, h₁, h₂]
  rfl

theorem decodeUtf8From_four (h : 240 ≤ b.toNat ∧ b.toNat ≤ 244) (h₁ : mayFollow b b₁ = true)
    (h₂ : isContinuation b₂ = true) (h₃ : isContinuation b₃ = true) :
    decodeUtf8From index (b :: b₁ :: b₂ :: b₃ :: rest) =
      (decodeUtf8From (index + 4) rest).map
        (Char.ofNat ((((b.toNat - 240) * 64 + payload b₁) * 64 + payload b₂) * 64 +
          payload b₃) :: ·) := by
  have hone : ¬b < 0x80 := by
    simp only [UInt8.lt_iff_toNat_lt, UInt8.reduceToNat]; omega
  have htwo : ¬(0xC2 ≤ b && b ≤ 0xDF) = true := by
    simp only [between_eq_true_iff, UInt8.reduceToNat]; omega
  have hthree : ¬(0xE0 ≤ b && b ≤ 0xEF) = true := by
    simp only [between_eq_true_iff, UInt8.reduceToNat]; omega
  have hfour : (0xF0 ≤ b && b ≤ 0xF4) = true := between_eq_true_iff.2 h
  rw [decodeUtf8From.eq_def]
  simp only [if_neg hone, if_neg htwo, if_neg hthree, if_pos hfour, h₁, h₂, h₃]
  rfl

end

/-! ## Characters and their bytes -/

/-- The UTF-8 form of a character by its number. -/
theorem utf8EncodeChar_eq {c : Char} {n : Nat} (h : c.toNat = n) :
    String.utf8EncodeChar c =
      if n ≤ 127 then [UInt8.ofNat n]
      else if n ≤ 2047 then [UInt8.ofNat (n / 64 % 32 + 192), UInt8.ofNat (n % 64 + 128)]
      else if n ≤ 65535 then
        [UInt8.ofNat (n / 4096 % 16 + 224), UInt8.ofNat (n / 64 % 64 + 128),
          UInt8.ofNat (n % 64 + 128)]
      else
        [UInt8.ofNat (n / 262144 % 8 + 240), UInt8.ofNat (n / 4096 % 64 + 128),
          UInt8.ofNat (n / 64 % 64 + 128), UInt8.ofNat (n % 64 + 128)] := by
  subst h
  rfl

theorem encode_of_lt {c : Char} (h : c.toNat < 128) :
    String.utf8EncodeChar c = [UInt8.ofNat c.toNat] := by
  rw [utf8EncodeChar_eq rfl, if_pos (Nat.le_of_lt_succ h)]

/-- All bytes of a character outside ASCII are outside ASCII. -/
theorem le_of_mem_encode {c : Char} (h : 128 ≤ c.toNat) :
    ∀ b ∈ String.utf8EncodeChar c, 128 ≤ b.toNat := by
  rw [utf8EncodeChar_eq rfl, if_neg (by omega)]
  split_ifs <;> simp only [List.forall_mem_cons, UInt8.toNat_ofNat', List.not_mem_nil,
    false_implies, implies_true, and_true] <;> omega

/-- The UTF-8 form of a character is read as the character. -/
theorem decodeUtf8From_encode (c : Char) (index : Nat) (rest : List UInt8) :
    decodeUtf8From index (String.utf8EncodeChar c ++ rest) =
      (decodeUtf8From (index + (String.utf8EncodeChar c).length) rest).map (c :: ·) := by
  have hvalid : c.toNat < 55296 ∨ 57343 < c.toNat ∧ c.toNat < 1114112 := c.valid
  have hchar (n : Nat) (h : n = c.toNat) : Char.ofNat n = c := by rw [h, Char.ofNat_toNat]
  rw [utf8EncodeChar_eq rfl]
  generalize c.toNat = n at hvalid hchar
  split_ifs
  · rw [List.singleton_append, decodeUtf8From_one, hchar]
    · rfl
    · simp; omega
    · simp; omega
  · simp only [List.cons_append, List.nil_append]
    rw [decodeUtf8From_two, hchar]
    · rfl
    · simp [payload]; omega
    · simp; omega
    · simp [isContinuation_eq_true_iff]; omega
  · simp only [List.cons_append, List.nil_append]
    rw [decodeUtf8From_three, hchar]
    · rfl
    · simp [payload]; omega
    · simp; omega
    · simp [mayFollow_eq_true_iff]; omega
    · simp [isContinuation_eq_true_iff]; omega
  · simp only [List.cons_append, List.nil_append]
    rw [decodeUtf8From_four, hchar]
    · rfl
    · simp [payload]; omega
    · simp; omega
    · simp [mayFollow_eq_true_iff]; omega
    · simp [isContinuation_eq_true_iff]; omega
    · simp [isContinuation_eq_true_iff]; omega

theorem toNat_ofNat_of_isValidChar {n : Nat} (h : n.isValidChar) : (Char.ofNat n).toNat = n := by
  rw [Char.ofNat, dif_pos h]
  rfl

theorem ofNat_eq_of_eq_toNat {n : Nat} {b : UInt8} (h : n = b.toNat) : UInt8.ofNat n = b := by
  rw [h, UInt8.ofNat_toNat]

section

variable {b b₁ b₂ b₃ : UInt8}

theorem encode_one (h : b.toNat ≤ 127) : String.utf8EncodeChar (Char.ofNat b.toNat) = [b] := by
  have hvalid : b.toNat.isValidChar := Or.inl (by omega)
  rw [utf8EncodeChar_eq (toNat_ofNat_of_isValidChar hvalid), if_pos h, UInt8.ofNat_toNat]

theorem encode_two (h : 194 ≤ b.toNat ∧ b.toNat ≤ 223) (h₁ : isContinuation b₁ = true) :
    String.utf8EncodeChar (Char.ofNat ((b.toNat - 192) * 64 + payload b₁)) = [b, b₁] := by
  have hnext := isContinuation_eq_true_iff.1 h₁
  unfold payload
  generalize hn : (b.toNat - 192) * 64 + b₁.toNat % 64 = n
  have hvalid : n.isValidChar := Or.inl (by omega)
  rw [utf8EncodeChar_eq (toNat_ofNat_of_isValidChar hvalid), if_neg (by omega), if_pos (by omega),
    ofNat_eq_of_eq_toNat (b := b) (by omega), ofNat_eq_of_eq_toNat (b := b₁) (by omega)]

theorem encode_three (h : 224 ≤ b.toNat ∧ b.toNat ≤ 239) (h₁ : mayFollow b b₁ = true)
    (h₂ : isContinuation b₂ = true) :
    String.utf8EncodeChar
        (Char.ofNat (((b.toNat - 224) * 64 + payload b₁) * 64 + payload b₂)) = [b, b₁, b₂] := by
  have hsecond := mayFollow_eq_true_iff.1 h₁
  have hthird := isContinuation_eq_true_iff.1 h₂
  unfold payload
  generalize hn : ((b.toNat - 224) * 64 + b₁.toNat % 64) * 64 + b₂.toNat % 64 = n
  have hvalid : n < 55296 ∨ 57343 < n ∧ n < 1114112 := by omega
  rw [utf8EncodeChar_eq (toNat_ofNat_of_isValidChar hvalid), if_neg (by omega),
    if_neg (by omega), if_pos (by omega), ofNat_eq_of_eq_toNat (b := b) (by omega),
    ofNat_eq_of_eq_toNat (b := b₁) (by omega), ofNat_eq_of_eq_toNat (b := b₂) (by omega)]

theorem encode_four (h : 240 ≤ b.toNat ∧ b.toNat ≤ 244) (h₁ : mayFollow b b₁ = true)
    (h₂ : isContinuation b₂ = true) (h₃ : isContinuation b₃ = true) :
    String.utf8EncodeChar
        (Char.ofNat ((((b.toNat - 240) * 64 + payload b₁) * 64 + payload b₂) * 64 +
          payload b₃)) = [b, b₁, b₂, b₃] := by
  have hsecond := mayFollow_eq_true_iff.1 h₁
  have hthird := isContinuation_eq_true_iff.1 h₂
  have hfourth := isContinuation_eq_true_iff.1 h₃
  unfold payload
  generalize hn : (((b.toNat - 240) * 64 + b₁.toNat % 64) * 64 + b₂.toNat % 64) * 64 +
    b₃.toNat % 64 = n
  have hvalid : n < 55296 ∨ 57343 < n ∧ n < 1114112 := by omega
  rw [utf8EncodeChar_eq (toNat_ofNat_of_isValidChar hvalid), if_neg (by omega),
    if_neg (by omega), if_neg (by omega), ofNat_eq_of_eq_toNat (b := b) (by omega),
    ofNat_eq_of_eq_toNat (b := b₁) (by omega), ofNat_eq_of_eq_toNat (b := b₂) (by omega),
    ofNat_eq_of_eq_toNat (b := b₃) (by omega)]

end

/-! ## Texts -/

/-- What is read from bytes is what they are the UTF-8 form of. -/
theorem eq_of_decodeUtf8From {index : Nat} {bytes : List UInt8} {cs : List Char}
    (h : decodeUtf8From index bytes = .ok cs) : bytes = cs.flatMap String.utf8EncodeChar := by
  fun_induction decodeUtf8From index bytes generalizing cs
  case case1 =>
    obtain rfl := Except.ok.inj h
    rfl
  case case2 b rest hone ih =>
    obtain ⟨cs, hrest, rfl⟩ := map_eq_ok_iff.1 h
    rw [List.flatMap_cons, ← ih hrest,
      encode_one (Nat.le_of_lt_succ (UInt8.lt_iff_toNat_lt.1 hone))]
    rfl
  case case5 b _ htwo b₁ rest hsecond ih =>
    obtain ⟨cs, hrest, rfl⟩ := map_eq_ok_iff.1 h
    rw [List.flatMap_cons, ← ih hrest,
      encode_two (between_eq_true_iff.1 htwo) (by simpa using hsecond)]
    rfl
  case case10 b _ _ hthree b₁ hsecond b₂ rest hthird ih =>
    obtain ⟨cs, hrest, rfl⟩ := map_eq_ok_iff.1 h
    rw [List.flatMap_cons, ← ih hrest,
      encode_three (between_eq_true_iff.1 hthree) (by simpa using hsecond) (by simpa using hthird)]
    rfl
  case case17 b _ _ _ hfour b₁ hsecond b₂ hthird b₃ rest hfourth ih =>
    obtain ⟨cs, hrest, rfl⟩ := map_eq_ok_iff.1 h
    rw [List.flatMap_cons, ← ih hrest,
      encode_four (between_eq_true_iff.1 hfour) (by simpa using hsecond) (by simpa using hthird)
        (by simpa using hfourth)]
    rfl
  -- Everything else is a failure.
  all_goals cases h

/-- The UTF-8 form of characters is read as the characters. -/
theorem decodeUtf8From_flatMap (cs : List Char) (index : Nat) :
    decodeUtf8From index (cs.flatMap String.utf8EncodeChar) = .ok cs := by
  induction cs generalizing index with
  | nil => rfl
  | cons c cs ih =>
    rw [List.flatMap_cons, decodeUtf8From_encode, ih]
    rfl

/-- Bytes are read as a text exactly when they are its UTF-8 form. -/
theorem decodeUtf8_eq_ok_iff {bytes : List UInt8} {s : String} :
    decodeUtf8 bytes = .ok s ↔ bytes = utf8Bytes s := by
  rw [decodeUtf8, map_eq_ok_iff]
  constructor
  · rintro ⟨cs, hcs, rfl⟩
    rw [eq_of_decodeUtf8From hcs, utf8Bytes, String.toList_ofList]
  · rintro rfl
    exact ⟨s.toList, decodeUtf8From_flatMap s.toList 0, String.ofList_toList⟩

end Text
end EbuildGraph
