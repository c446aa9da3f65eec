import Mathlib.Data.List.TakeWhile
import EbuildGraph.Json.Parser
import EbuildGraph.Proofs.Text.Runs

/-!
# Reading printed JSON

A printed value is read back, with whatever follows it left over.  Characters between quotes
are read one by one, however they are escaped; the digits of a number end where no digit and
nothing of a fraction or an exponent follows; and every element and member is shorter than the
value it belongs to, so the bound on nesting that the length of the text gives is enough.

Main definitions:

- {lit}`Json.isPlain`: whether no part of a value is kept only as it is spelled.
- {lit}`Json.EndsNumber`: whether a number ends before a list of characters.

Main results:

- Theorem {lit}`readUnits_escaped`: a text between quotes is read back.
- Theorem {lit}`readNumber_naturalChars`: a natural number is read back.
- Theorem {lit}`readValue_chars`: a value is read back at every level of nesting.
- Theorem {lit}`parse?_print`: a printed value is read back from a whole text.
-/

namespace EbuildGraph
namespace Json

/-! ## Texts -/

/-- The digits that a control character is escaped with are its number. -/
theorem hexNumber?_control : ∀ n < 32,
    Text.hexNumber? ['0', '0', Nat.digitChar (n / 16), Nat.digitChar (n % 16)] = some n := by
  decide

/-- One character is read back, however it is escaped. -/
theorem readUnits_escapeChar (c : Char) (cs : List Char) :
    readUnits (escapeChar c ++ cs) = (readUnits cs).map fun p => (c.toNat :: p.1, p.2) := by
  unfold escapeChar
  split
  · next h => subst h; cases hread : readUnits cs <;> simp [readUnits, escaped?, hread]
  split
  · next h => subst h; cases hread : readUnits cs <;> simp [readUnits, escaped?, hread]
  split
  · next h => subst h; cases hread : readUnits cs <;> simp [readUnits, escaped?, hread]
  split
  · next h => subst h; cases hread : readUnits cs <;> simp [readUnits, escaped?, hread]
  split
  · next h => subst h; cases hread : readUnits cs <;> simp [readUnits, escaped?, hread]
  split
  · next h => cases hread : readUnits cs <;> simp [readUnits, escaped?, hread, h]
  split
  · next h => cases hread : readUnits cs <;> simp [readUnits, escaped?, hread, h]
  split
  · next h =>
    have hnumber := hexNumber?_control c.toNat h
    cases hread : readUnits cs <;> simp [readUnits, controlChars, hnumber, hread]
  · next hslash _ _ _ _ _ hlow =>
    cases hread : readUnits cs <;> simp [readUnits, hslash, hlow, hread]

/-- A text between quotes is read back. -/
theorem readUnits_escaped (cs rest : List Char) :
    readUnits (cs.flatMap escapeChar ++ '"' :: rest) = some (cs.map Char.toNat, rest) := by
  induction cs with
  | nil => simp [readUnits]
  | cons c cs ih => simp [readUnits_escapeChar, ih]

/-- No character is half of a surrogate pair. -/
theorem not_isSurrogate (c : Char) :
    isHighSurrogate c.toNat = false ∧ isLowSurrogate c.toNat = false := by
  have hvalid : c.toNat < 0xD800 ∨ 0xDFFF < c.toNat ∧ c.toNat < 0x110000 := c.valid
  simp only [isHighSurrogate, isLowSurrogate, Bool.and_eq_false_iff, decide_eq_false_iff_not]
  omega

/-- Characters are joined from their own numbers. -/
theorem joinUnits_map_toNat (cs : List Char) : joinUnits (cs.map Char.toNat) = some cs := by
  induction cs with
  | nil => rfl
  | cons c cs ih =>
    obtain ⟨hhigh, hlow⟩ := not_isSurrogate c
    cases cs with
    | nil => simp [joinUnits, hhigh, hlow]
    | cons d cs => simpa [joinUnits, hhigh, hlow] using ih

/-- The numbers of characters make up the text of these. -/
theorem ofUnits_map_toNat (cs input rest : List Char) :
    ofUnits (cs.map Char.toNat) input rest = text (String.ofList cs) := by
  rw [ofUnits, joinUnits_map_toNat]

/-! ## Numbers -/

/-- Whether a number ends before a list of characters. -/
def EndsNumber (cs : List Char) : Prop :=
  ∀ c ∈ cs.head?, c.isDigit = false ∧ c ≠ '.' ∧ c ≠ 'e' ∧ c ≠ 'E'

/-- Digits are taken up to where the number ends. -/
theorem takeDigits?_append {digits rest : List Char} (hne : digits ≠ [])
    (hdigits : ∀ c ∈ digits, c.isDigit = true) (hrest : EndsNumber rest) :
    takeDigits? (digits ++ rest) = some (digits, rest) := by
  have hhead : ∀ c ∈ rest.head?, c.isDigit = false := fun c hc => (hrest c hc).1
  unfold takeDigits?
  rw [Text.takeWhile_append_of_head hdigits hhead, Text.dropWhile_append_of_head hdigits hhead]
  cases digits with
  | nil => exact absurd rfl hne
  | cons d ds => rfl

/-- The digits of a positive number do not start with a zero. -/
theorem head_naturalChars_ne_zero {n : Nat} (h : 0 < n) :
    (naturalChars n).head? ≠ some '0' := by
  unfold naturalChars
  induction n using Nat.strongRecOn with
  | ind n ih =>
    by_cases hsmall : n < 10
    · rw [Nat.toDigits_of_lt_base hsmall]
      simp [Nat.digitChar_eq_zero]
      omega
    · have hquotient := ih (n / 10) (by omega) (by omega)
      rw [Nat.toDigits_of_base_le (by omega) (by omega),
        List.head?_append_of_ne_nil _ Nat.toDigits_ne_nil]
      exact hquotient

/-- The digits of a number are taken up to where it ends. -/
theorem takeWhole?_naturalChars (n : Nat) {rest : List Char} (hrest : EndsNumber rest) :
    takeWhole? (naturalChars n ++ rest) = some (naturalChars n, rest) := by
  by_cases hzero : n = 0
  · subst hzero
    rfl
  · have hne : naturalChars n ≠ [] := Nat.toDigits_ne_nil
    have hdigits : ∀ c ∈ naturalChars n, c.isDigit = true := fun c hc =>
      Nat.isDigit_of_mem_toDigits (by omega) (by omega) hc
    have hhead := head_naturalChars_ne_zero (Nat.pos_of_ne_zero hzero)
    have htake := takeDigits?_append hne hdigits hrest
    cases hchars : naturalChars n with
    | nil => exact absurd hchars hne
    | cons c cs =>
      rw [hchars] at hhead htake
      have hc : c ≠ '0' := by simpa using hhead
      rw [← htake, List.cons_append, takeWhole?]
      simpa using hc

/-- Where a number ends there is no fraction. -/
theorem skipFraction?_of_endsNumber {cs : List Char} (h : EndsNumber cs) :
    skipFraction? cs = some cs := by
  cases cs with
  | nil => rfl
  | cons c cs =>
    have hc : c ≠ '.' := (h c rfl).2.1
    simp [skipFraction?, hc]

/-- Where a number ends there is no exponent. -/
theorem skipExponent?_of_endsNumber {cs : List Char} (h : EndsNumber cs) :
    skipExponent? cs = some cs := by
  cases cs with
  | nil => rfl
  | cons c cs =>
    obtain ⟨-, -, hlower, hupper⟩ := h c rfl
    simp [skipExponent?, hlower, hupper]

/-- A number is read back from its digits. -/
theorem naturalOf_naturalChars (n : Nat) : naturalOf (naturalChars n) = n :=
  Nat.ofDigitChars_ten_toDigits

/-- A number is written with digits. -/
theorem isDigit_of_mem_naturalChars {n : Nat} {c : Char} (h : c ∈ naturalChars n) :
    c.isDigit = true :=
  Nat.isDigit_of_mem_toDigits (by omega) (by omega) h

/-- A number is written with one digit at least. -/
theorem exists_start_naturalChars (n : Nat) :
    ∃ c cs, naturalChars n = c :: cs ∧ c.isDigit = true := by
  cases hchars : naturalChars n with
  | nil => exact absurd hchars Nat.toDigits_ne_nil
  | cons c cs => exact ⟨c, cs, rfl, isDigit_of_mem_naturalChars (hchars ▸ List.mem_cons_self)⟩

/-- A natural number is read back. -/
theorem readNumber_naturalChars (n : Nat) {rest : List Char} (hrest : EndsNumber rest) :
    readNumber (naturalChars n ++ rest) = some (natural n, rest) := by
  have hsign : ((naturalChars n ++ rest).head? == some '-') = false := by
    obtain ⟨c, cs, hchars, hdigit⟩ := exists_start_naturalChars n
    rw [hchars, List.cons_append, List.head?_cons]
    simp only [beq_eq_false_iff_ne, ne_eq, Option.some.injEq]
    rintro rfl
    cases hdigit
  unfold readNumber
  rw [hsign]
  simp [takeWhole?_naturalChars n hrest, skipFraction?_of_endsNumber hrest,
    skipExponent?_of_endsNumber hrest, naturalOf_naturalChars]

/-! ## Layout -/

/-- A new line with its indentation is skipped. -/
@[simp]
theorem skip_newLine (level : Nat) (cs : List Char) : skip (newLine level ++ cs) = skip cs := by
  apply List.dropWhile_append_of_pos
  simp [newLine, Text.isLayout]

theorem skip_cons {c : Char} (h : Text.isLayout c = false) (cs : List Char) :
    skip (c :: cs) = c :: cs :=
  List.dropWhile_cons_of_neg (by simp [h])

/-- A value is read from behind a new line. -/
theorem readValue_newLine (fuel level : Nat) (cs : List Char) :
    readValue fuel (newLine level ++ cs) = readValue fuel cs := by
  cases fuel with
  | zero => rfl
  | succ fuel => rw [readValue, readValue, skip_newLine]

theorem readValue_blank (fuel : Nat) (cs : List Char) :
    readValue fuel (' ' :: cs) = readValue fuel cs := by
  cases fuel with
  | zero => rfl
  | succ fuel => rw [readValue, readValue, skip, List.dropWhile_cons_of_pos (by decide), skip]

/-- Elements are read from behind a new line. -/
theorem readElements_newLine (fuel level : Nat) (cs : List Char) :
    readElements fuel (newLine level ++ cs) = readElements fuel cs := by
  cases fuel with
  | zero => rfl
  | succ fuel => rw [readElements, readElements, readValue_newLine]

/-- Members are read from behind a new line. -/
theorem readMembers_newLine (fuel level : Nat) (cs : List Char) :
    readMembers fuel (newLine level ++ cs) = readMembers fuel cs := by
  cases fuel with
  | zero => rfl
  | succ fuel => rw [readMembers, readMembers, skip_newLine]

theorem endsNumber_newLine (level : Nat) (cs : List Char) : EndsNumber (newLine level ++ cs) := by
  simp [EndsNumber, newLine]

/-- A value ends before the elements and members that follow it. -/
theorem endsNumber_elementChars (level : Nat) (elements : List Json) {cs : List Char}
    (h : EndsNumber cs) : EndsNumber (elementChars level elements ++ cs) := by
  cases elements with
  | nil => exact h
  | cons e rest => simp [EndsNumber, elementChars]

/-- A number ends in front of further members where it ends in front of what follows them. -/
theorem endsNumber_memberChars (level : Nat) (members : List (String × Json)) {cs : List Char}
    (h : EndsNumber cs) : EndsNumber (memberChars level members ++ cs) := by
  cases members with
  | nil => exact h
  | cons m rest => simp [EndsNumber, memberChars]

/-! ## Values -/

mutual

/-- Whether no part of a value is kept only as it is spelled. -/
def isPlain : Json → Bool
  | null => true
  | bool _ => true
  | natural _ => true
  | text _ => true
  | array elements => arePlain elements
  | object members => havePlainValues members
  | other _ => false

/-- Whether elements of an array are plain. -/
def arePlain : List Json → Bool
  | [] => true
  | e :: rest => e.isPlain && arePlain rest

/-- Whether the values of members are plain. -/
def havePlainValues : List (String × Json) → Bool
  | [] => true
  | (_, value) :: rest => value.isPlain && havePlainValues rest

end

/-- A digit is no other character. -/
theorem ne_of_isDigit {c : Char} (h : c.isDigit = true) {d : Char} (hd : d.isDigit = false) :
    c ≠ d := by
  rintro rfl
  simp [h] at hd

/-- No digit is layout. -/
theorem not_isLayout_of_isDigit {c : Char} (h : c.isDigit = true) : Text.isLayout c = false := by
  simp [Text.isLayout, ne_of_isDigit h]

/-- A plain value starts with a character that is neither layout nor the end of an array. -/
theorem exists_start_chars {j : Json} (h : j.isPlain = true) (level : Nat) :
    ∃ c cs, chars level j = c :: cs ∧ Text.isLayout c = false ∧ c ≠ ']' := by
  cases j with
  | null => exact ⟨_, _, rfl, by decide, by decide⟩
  | bool b => cases b <;> exact ⟨_, _, rfl, by decide, by decide⟩
  | natural n =>
    obtain ⟨c, cs, hchars, hdigit⟩ := exists_start_naturalChars n
    exact ⟨c, cs, by rw [chars, hchars], not_isLayout_of_isDigit hdigit, ne_of_isDigit hdigit rfl⟩
  | text s => exact ⟨_, _, rfl, by decide, by decide⟩
  | array elements => cases elements <;> exact ⟨_, _, rfl, by decide, by decide⟩
  | object members => rcases members with _ | ⟨⟨name, value⟩, rest⟩ <;>
      exact ⟨_, _, rfl, by decide, by decide⟩
  | other spelling => cases h

/-- A value that starts with a digit is a number. -/
theorem readValue_of_isDigit (fuel : Nat) {c : Char} (h : c.isDigit = true) (cs : List Char) :
    readValue (fuel + 1) (c :: cs) = readNumber (c :: cs) := by
  rw [readValue, skip_cons (not_isLayout_of_isDigit h)]
  simp [ne_of_isDigit h]

/-- The code points of the name of a member. -/
def unitsOf (member : String × Json) : List Nat × Json :=
  (member.1.toList.map Char.toNat, member.2)

/-- The members that were written make up the object. -/
theorem ofMembers_map_unitsOf (members : List (String × Json)) (input rest : List Char) :
    ofMembers (members.map unitsOf) input rest = object members := by
  have hnames : (members.map unitsOf).mapM
      (fun m => (joinUnits m.1).map fun name => (String.ofList name, m.2)) = some members := by
    induction members with
    | nil => rfl
    | cons m others ih => simp [unitsOf, joinUnits_map_toNat, ih]
  rw [ofMembers, hnames]

/-- An array is read once its elements are. -/
theorem readValue_elements {fuel : Nat} {c : Char} {cs start rest : List Char}
    {elements : List Json} (hskip : skip cs = c :: start) (hclose : c ≠ ']')
    (hread : readElements fuel (c :: start) = some (elements, rest)) :
    readValue (fuel + 1) ('[' :: cs) = some (array elements, rest) := by
  rw [readValue, skip_cons (by decide)]
  simp only [hskip]
  split
  · next heq => exact absurd (List.cons.inj heq).1 hclose
  · simp [hread]

/-- An object is read once its members are. -/
theorem readValue_members {fuel : Nat} (level : Nat) {start rest : List Char}
    {members : List (String × Json)}
    (hread : readMembers fuel ('"' :: start) = some (members.map unitsOf, rest)) :
    readValue (fuel + 1) ('\x7b' :: (newLine level ++ '"' :: start)) =
      some (object members, rest) := by
  have hquote : skip ('"' :: start) = '"' :: start := skip_cons (by decide) start
  rw [readValue, skip_cons (by decide)]
  simp [hquote, hread, ofMembers_map_unitsOf]

/-- The last member of an object is read once its value is. -/
theorem readMembers_last {fuel : Nat} (name : String) {value : Json} {cs after rest : List Char}
    (hvalue : readValue fuel cs = some (value, after)) (hclose : skip after = '\x7d' :: rest) :
    readMembers (fuel + 1) (quotedChars name ++ ([':', ' '] ++ cs)) =
      some ([unitsOf (name, value)], rest) := by
  simp [readMembers, quotedChars, skip_cons, Text.isLayout, readUnits_escaped, readValue_blank,
    hvalue, hclose, unitsOf]

/-- A member of an object is read once its value and the members after it are. -/
theorem readMembers_next {fuel : Nat} (name : String) {value : Json}
    {cs after others rest : List Char} {members : List (List Nat × Json)}
    (hvalue : readValue fuel cs = some (value, after)) (hcomma : skip after = ',' :: others)
    (hothers : readMembers fuel others = some (members, rest)) :
    readMembers (fuel + 1) (quotedChars name ++ ([':', ' '] ++ cs)) =
      some (unitsOf (name, value) :: members, rest) := by
  simp [readMembers, quotedChars, skip_cons, Text.isLayout, readUnits_escaped, readValue_blank,
    hvalue, hcomma, hothers, unitsOf]

mutual

/-- A value is read back at every level of nesting. -/
theorem readValue_chars (fuel level : Nat) {j : Json} (hplain : j.isPlain = true)
    {rest : List Char} (hfuel : (chars level j).length ≤ fuel) (hrest : EndsNumber rest) :
    readValue fuel (chars level j ++ rest) = some (j, rest) := by
  obtain ⟨c, cs, hstart, -, -⟩ := exists_start_chars hplain level
  cases fuel with
  | zero => simp [hstart] at hfuel
  | succ fuel =>
    cases j with
    | null => rfl
    | bool b => cases b <;> rfl
    | natural n =>
      obtain ⟨c, cs, hchars, hdigit⟩ := exists_start_naturalChars n
      have hread := readNumber_naturalChars n hrest
      rw [chars, hchars, List.cons_append] at *
      rw [readValue_of_isDigit fuel hdigit, hread]
    | text s =>
      have hunits := readUnits_escaped s.toList rest
      simp [chars, quotedChars, readValue, skip_cons, Text.isLayout, hunits, ofUnits_map_toNat]
    | array elements =>
      cases elements with
      | nil => rfl
      | cons e others =>
        obtain ⟨he, hothers⟩ : e.isPlain = true ∧ arePlain others = true := by
          simpa [isPlain, arePlain] using hplain
        -- The bracket takes a round of its own, so the length bounds the rounds of the elements.
        simp only [chars, List.length_append, List.length_cons, List.length_nil] at hfuel
        have hread := readElements_chars fuel (level + 1) level he hothers (by omega) rest
        obtain ⟨first, tail, hfirst, hlayout, hclose⟩ := exists_start_chars he (level + 1)
        rw [hfirst, List.cons_append] at hread
        have hskip := skip_cons hlayout (tail ++ (elementChars (level + 1) others ++
          (newLine level ++ ']' :: rest)))
        have hvalue := readValue_elements ((skip_newLine (level + 1) _).trans hskip) hclose hread
        simpa [chars, hfirst] using hvalue
    | object members =>
      rcases members with _ | ⟨⟨name, value⟩, others⟩
      · rfl
      · obtain ⟨hvalue, hothers⟩ : value.isPlain = true ∧ havePlainValues others = true := by
          simpa [isPlain, havePlainValues] using hplain
        simp only [chars, List.length_append, List.length_cons, List.length_nil] at hfuel
        have hread := readMembers_chars fuel (level + 1) level name hvalue hothers
          (by omega) rest
        rw [quotedChars, List.cons_append, List.cons_append] at hread
        have hvalue := readValue_members (level + 1) hread
        simpa [chars, quotedChars] using hvalue
    | other spelling => cases hplain

/-- The elements of an array are read back, up to its end. -/
theorem readElements_chars (fuel level closing : Nat) {e : Json} {others : List Json}
    (hplain : e.isPlain = true) (hothers : arePlain others = true)
    (hfuel : (chars level e).length + (elementChars level others).length < fuel)
    (rest : List Char) :
    readElements fuel (chars level e ++ (elementChars level others ++
      (newLine closing ++ ']' :: rest))) = some (e :: others, rest) := by
  cases fuel with
  | zero => omega
  | succ fuel =>
    have hend : EndsNumber (elementChars level others ++ (newLine closing ++ ']' :: rest)) :=
      endsNumber_elementChars level others (endsNumber_newLine closing _)
    have hfirst := readValue_chars fuel level hplain (by omega) hend
    rw [readElements, hfirst]
    cases others with
    | nil => simp [elementChars, skip_cons, Text.isLayout]
    | cons next others =>
      obtain ⟨hnext, hothers⟩ : next.isPlain = true ∧ arePlain others = true := by
        simpa [arePlain] using hothers
      simp only [elementChars, List.length_cons, List.length_append] at hfuel
      have hrest := readElements_chars fuel level closing hnext hothers (by omega) rest
      simp [elementChars, skip_cons, Text.isLayout, readElements_newLine, hrest]

/-- The members of an object are read back, up to its end. -/
theorem readMembers_chars (fuel level closing : Nat) (name : String) {value : Json}
    {others : List (String × Json)} (hplain : value.isPlain = true)
    (hothers : havePlainValues others = true)
    (hfuel : (chars level value).length + (memberChars level others).length < fuel)
    (rest : List Char) :
    readMembers fuel (quotedChars name ++ ([':', ' '] ++ (chars level value ++
      (memberChars level others ++ (newLine closing ++ '\x7d' :: rest))))) =
        some (((name, value) :: others).map unitsOf, rest) := by
  cases fuel with
  | zero => omega
  | succ fuel =>
    have hend : EndsNumber (memberChars level others ++ (newLine closing ++ '\x7d' :: rest)) :=
      endsNumber_memberChars level others (endsNumber_newLine closing _)
    have hvalue := readValue_chars fuel level hplain (by omega) hend
    cases others with
    | nil => exact readMembers_last name hvalue (by simp [memberChars, skip_cons, Text.isLayout])
    | cons next others =>
      obtain ⟨hnext, hothers⟩ : next.2.isPlain = true ∧ havePlainValues others = true := by
        simpa [havePlainValues] using hothers
      simp only [memberChars, List.length_cons, List.length_append] at hfuel
      have hrest := readMembers_chars fuel level closing next.1 hnext hothers (by omega) rest
      rw [← readMembers_newLine fuel level] at hrest
      exact readMembers_next name hvalue (by simp [memberChars, skip_cons, Text.isLayout]) hrest

end

/-! ## Whole texts -/

/-- A printed value is read back, also with layout behind it. -/
theorem parse?_print {j : Json} (hplain : j.isPlain = true) {blank : String}
    (hblank : ∀ c ∈ blank.toList, Text.isLayout c = true) :
    parse? (j.print ++ blank) = some j := by
  have hend : EndsNumber blank.toList := fun c hc => by
    have hlayout := hblank c (List.mem_of_mem_head? hc)
    simp only [Text.isLayout, Bool.or_eq_true, beq_iff_eq] at hlayout
    rcases hlayout with ((h | h) | h) | h <;> subst h <;> decide
  have hread := readValue_chars (2 * (chars 0 j ++ blank.toList).length + 2) 0 hplain
    (by simp; omega) hend
  have hskip : skip blank.toList = [] := List.dropWhile_eq_nil_iff.2 hblank
  have hchars : (j.print ++ blank).toList = chars 0 j ++ blank.toList := by simp [print]
  rw [parse?, hchars, hread]
  simp [hskip]

end Json
end EbuildGraph
