import EbuildGraph.Proofs.Version.Text

/-!
# Versions read back

A version is split off from the right, part by part, while it is written from the left.  That
each part is found where it was written needs that no part takes from its neighbours: what is
left of a suffix never ends in another label, a number is never taken for a letter, and
behind a hyphen the longest sequence of numbers is the one that was written.

Main results:

- Theorem {lit}`splitRevision_append`: a revision is found behind what ends in none.
- Theorem {lit}`splitSuffixes_append`: suffixes are found behind what ends in none.
- Theorem {lit}`splitNumbers_append`: numbers are found at the start and behind a hyphen.
- Theorem {lit}`splitVersion_append`: so is a whole version.
- Theorem {lit}`splitTrailing_append`: the same for texts.
-/

namespace EbuildGraph
namespace Version

/-! ## Digits -/

/-- Digits at the end are found behind what does not end in a digit. -/
theorem splitDigits_append {cs ds : List Char} (hcs : ∀ c ∈ cs.getLast?, c.isDigit = false)
    (hds : ∀ c ∈ ds, c.isDigit = true) : splitDigits (cs ++ ds) = (cs, ds) := by
  have hreverse : ∀ c ∈ ds.reverse, c.isDigit = true := by
    intro c hc
    exact hds c (List.mem_reverse.1 hc)
  have hstop : cs.reverse.takeWhile Char.isDigit = [] ∧
      cs.reverse.dropWhile Char.isDigit = cs.reverse := by
    rcases List.eq_nil_or_concat' cs with rfl | ⟨front, c, rfl⟩
    · exact ⟨rfl, rfl⟩
    · have hc : c.isDigit = false := hcs c (by simp)
      simp [hc]
  rw [splitDigits, Text.dropEndWhile, List.reverse_append,
    List.takeWhile_append_of_pos hreverse, List.dropWhile_append_of_pos hreverse, hstop.1, hstop.2]
  simp

/-- The last character of a text is that of its ending. -/
theorem getLast?_of_append_eq {start ending cs : List Char} {c : Char}
    (h : start ++ ending = cs) (hc : ending.getLast? = some c) : cs.getLast? = some c := by
  rw [← h, List.getLast?_append, hc]
  rfl

/-! ## Revisions -/

/-- A revision is found where it was written. -/
theorem splitRevision_append (cs : List Char) (n : Numeral) :
    splitRevision (cs ++ revisionChars (some n)) = (cs, some n) := by
  have hdigits : splitDigits (cs ++ revisionChars (some n)) = (cs ++ ['-', 'r'], n.digits) := by
    have hsplit : cs ++ revisionChars (some n) = (cs ++ ['-', 'r']) ++ n.digits := by
      simp [revisionChars]
    rw [hsplit]
    exact splitDigits_append (by simp) fun c hc => isDigit_of_mem_digits hc
  have hsuffix : ['-', 'r'].isSuffixOf? (cs ++ ['-', 'r']) = some cs :=
    List.isSuffixOf?_eq_some_iff_append_eq.2 rfl
  simp [splitRevision, hdigits, hsuffix]

/-- Without digits at the end there is no revision. -/
theorem splitRevision_of_no_digits {cs : List Char} (h : (splitDigits cs).2 = []) :
    splitRevision cs = (cs, none) := by
  have hnumber : Numeral.ofChars? [] = none := rfl
  simp [splitRevision, h, hnumber]

/-- Digits behind anything but an {lit}`r` are no revision. -/
theorem splitRevision_of_getLast {cs : List Char}
    (h : (splitDigits cs).1.getLast? ≠ some 'r') : splitRevision cs = (cs, none) := by
  have hsuffix : ['-', 'r'].isSuffixOf? (splitDigits cs).1 = none := by
    rw [Option.eq_none_iff_forall_ne_some]
    intro start hstart
    exact h (getLast?_of_append_eq (List.isSuffixOf?_eq_some_iff_append_eq.1 hstart) rfl)
  unfold splitRevision
  split
  next head digits hdigits =>
  rw [hdigits] at hsuffix
  simp [hsuffix]

/-! ## Suffixes -/

/-- The last two characters of a label: the former is no digit, and the latter a letter other
than {lit}`r`. -/
theorem exists_label_end (label : SuffixKind) : ∃ start x y,
    label.text.toList = start ++ [x, y] ∧ x.isDigit = false ∧ y.isLower = true ∧ y ≠ 'r' := by
  cases label with
  | alpha => exact ⟨['_', 'a', 'l', 'p'], 'h', 'a', by decide⟩
  | beta => exact ⟨['_', 'b', 'e'], 't', 'a', by decide⟩
  | pre => exact ⟨['_', 'p'], 'r', 'e', by decide⟩
  | rc => exact ⟨['_'], 'r', 'c', by decide⟩
  | p => exact ⟨[], '_', 'p', by decide⟩

theorem isDigit_of_isLower {c : Char} (h : c.isLower = true) : c.isDigit = false := by
  have hlow := of_decide_eq_true (Bool.and_eq_true_iff.1 h).1
  refine Bool.and_eq_false_iff.2 (Or.inr (decide_eq_false ?_))
  intro hle
  exact absurd (Nat.le_trans hlow hle) (by decide)

/-- No label is the end of another. -/
theorem label_unique {a b : SuffixKind} {cs : List Char} (ha : a.text.toList <:+ cs)
    (hb : b.text.toList <:+ cs) : a = b := by
  have hall : ∀ x ∈ SuffixKind.all, ∀ y ∈ SuffixKind.all,
      x.text.toList <:+ y.text.toList → x = y := by
    decide
  rcases List.suffix_or_suffix_of_suffix ha hb with h | h
  · exact hall a (SuffixKind.mem_all a) b (SuffixKind.mem_all b) h
  · exact (hall b (SuffixKind.mem_all b) a (SuffixKind.mem_all a) h).symm

/-- The label of a suffix is what remains when its digits are split off. -/
theorem splitDigits_suffix (cs : List Char) (s : Suffix) :
    splitDigits (cs ++ s.text.toList) = (cs ++ s.label.text.toList, optionalDigits s.number) := by
  obtain ⟨start, x, y, hlabel, _, hlower, _⟩ := exists_label_end s.label
  rw [Suffix.text, String.toList_append, String.toList_ofList, ← List.append_assoc]
  apply splitDigits_append
  · intro c hc
    rw [hlabel] at hc
    obtain rfl : y = c := by simpa using hc
    exact isDigit_of_isLower hlower
  · intro c hc
    exact isDigit_of_mem_optionalDigits hc

theorem ofChars?_optionalDigits (number : Option Numeral) :
    Numeral.ofChars? (optionalDigits number) = number := by
  cases number with
  | none => rfl
  | some n => exact Numeral.ofChars?_digits n

/-- A suffix is found where it was written: of the labels, only its own one fits. -/
theorem splitSuffix_append (cs : List Char) (s : Suffix) :
    splitSuffix? (cs ++ s.text.toList) = some (cs, s) := by
  have hfits : s.label.text.toList.isSuffixOf? (cs ++ s.label.text.toList) = some cs :=
    List.isSuffixOf?_eq_some_iff_append_eq.2 rfl
  have hfound : ∃ found, splitSuffix? (cs ++ s.text.toList) = some found := by
    rw [← Option.isSome_iff_exists, splitSuffix?, splitDigits_suffix, List.isSome_findSome?]
    apply List.any_eq_true.2
    exact ⟨s.label, SuffixKind.mem_all s.label, by simp [hfits]⟩
  obtain ⟨⟨rest, t⟩, hfound⟩ := hfound
  have hwritten := hfound
  rw [splitSuffix?, splitDigits_suffix] at hwritten
  obtain ⟨label, _, hlabel⟩ := List.exists_of_findSome?_eq_some hwritten
  obtain ⟨start, hstart, heq⟩ := Option.map_eq_some_iff.1 hlabel
  have hstart := List.isSuffixOf?_eq_some_iff_append_eq.1 hstart
  have hsame : label = s.label := label_unique ⟨start, hstart⟩ ⟨cs, rfl⟩
  rw [hsame] at hstart heq
  rw [hfound, ← heq, List.append_cancel_right hstart, ofChars?_optionalDigits]

/-- Where no label ends there is no suffix. -/
theorem splitSuffix_eq_none {cs : List Char}
    (h : ∀ label : SuffixKind, ¬label.text.toList <:+ (splitDigits cs).1) :
    splitSuffix? cs = none := by
  apply List.findSome?_eq_none_iff.2
  intro label _
  rw [Option.map_eq_none_iff, Option.eq_none_iff_forall_ne_some]
  intro start hstart
  exact h label ⟨start, List.isSuffixOf?_eq_some_iff_append_eq.1 hstart⟩

theorem suffixChars_concat (suffixes : List Suffix) (s : Suffix) :
    suffixChars (suffixes ++ [s]) = suffixChars suffixes ++ s.text.toList := by
  simp [suffixChars]

theorem length_le_suffixChars (suffixes : List Suffix) :
    suffixes.length ≤ (suffixChars suffixes).length := by
  induction suffixes with
  | nil => exact Nat.le_refl 0
  | cons s rest ih =>
    have hlength : 0 < s.text.toList.length := by
      obtain ⟨start, x, y, hlabel, _⟩ := exists_label_end s.label
      apply List.length_pos_of_mem (a := x)
      simp [Suffix.text, hlabel]
    have hcons : suffixChars (s :: rest) = s.text.toList ++ suffixChars rest := rfl
    rw [hcons, List.length_append, List.length_cons]
    omega

theorem splitSuffixesUpTo_append {front : List Char} (h : splitSuffix? front = none)
    {suffixes : List Suffix} {n : Nat} (hn : suffixes.length ≤ n) :
    splitSuffixesUpTo n (front ++ suffixChars suffixes) = (front, suffixes) := by
  induction n generalizing suffixes with
  | zero =>
    obtain rfl : suffixes = [] := List.length_eq_zero_iff.1 (Nat.le_zero.1 hn)
    simp [splitSuffixesUpTo, suffixChars]
  | succ n ih =>
    rcases List.eq_nil_or_concat' suffixes with rfl | ⟨others, s, rfl⟩
    · simp [splitSuffixesUpTo, suffixChars, h]
    · have hothers : others.length ≤ n := by simpa using hn
      rw [suffixChars_concat, ← List.append_assoc, splitSuffixesUpTo, splitSuffix_append]
      simp [ih hothers]

/-- Suffixes are found behind what ends in none. -/
theorem splitSuffixes_append {front : List Char} (h : splitSuffix? front = none)
    (suffixes : List Suffix) : splitSuffixes (front ++ suffixChars suffixes) = (front, suffixes) := by
  apply splitSuffixesUpTo_append h
  rw [List.length_append]
  exact Nat.le_trans (length_le_suffixChars suffixes) (Nat.le_add_left _ _)

/-- Suffixes are not taken for a revision. -/
theorem splitRevision_suffixes {front : List Char} (h : splitRevision front = (front, none))
    (suffixes : List Suffix) :
    splitRevision (front ++ suffixChars suffixes) = (front ++ suffixChars suffixes, none) := by
  rcases List.eq_nil_or_concat' suffixes with rfl | ⟨others, s, rfl⟩
  · simpa [suffixChars] using h
  · obtain ⟨start, x, y, hlabel, _, _, hy⟩ := exists_label_end s.label
    rw [suffixChars_concat, ← List.append_assoc]
    apply splitRevision_of_getLast
    rw [splitDigits_suffix, hlabel]
    simpa using hy

/-! ## Numbers -/

/-- A text that ends in a number, which starts there or behind a hyphen or a dot. -/
def EndsInNumber (cs : List Char) : Prop :=
  ∃ stem, ∃ n : Numeral, cs = stem ++ n.digits ∧ ∀ c ∈ stem.getLast?, c = '-' ∨ c = '.'

theorem numberChars_singleton (n : Numeral) : numberChars [n] = n.digits := by
  simp [numberChars]

theorem numberChars_cons_cons (n m : Numeral) (rest : List Numeral) :
    numberChars (n :: m :: rest) = n.digits ++ '.' :: numberChars (m :: rest) := by
  simp [numberChars]

/-- Numbers end in a number, at the start and behind a hyphen. -/
theorem endsInNumber_append {start : List Char}
    (hstart : start = [] ∨ start.getLast? = some '-') (major : Numeral) (minor : List Numeral) :
    EndsInNumber (start ++ numberChars (major :: minor)) := by
  have hnumbers : ∀ n : Numeral, ∃ stem, ∃ m : Numeral,
      numberChars (n :: minor) = stem ++ m.digits ∧ (stem = [] ∨ stem.getLast? = some '.') := by
    induction minor with
    | nil =>
      intro n
      exact ⟨[], n, numberChars_singleton n, Or.inl rfl⟩
    | cons next rest ih =>
      intro n
      obtain ⟨stem, m, heq, hstem⟩ := ih next
      refine ⟨n.digits ++ '.' :: stem, m, by simp [numberChars_cons_cons, heq], Or.inr ?_⟩
      rcases hstem with rfl | hlast
      · simp
      · exact getLast?_of_append_eq rfl (getLast?_of_append_eq List.singleton_append hlast)
  obtain ⟨stem, m, heq, hstem⟩ := hnumbers major
  refine ⟨start ++ stem, m, by rw [heq, List.append_assoc], ?_⟩
  intro c hc
  rcases hstem with rfl | hlast
  · rcases hstart with rfl | hhyphen
    · cases hc
    · rw [List.append_nil, hhyphen] at hc
      exact Or.inl (Option.some.inj hc).symm
  · rw [getLast?_of_append_eq rfl hlast] at hc
    exact Or.inr (Option.some.inj hc).symm

namespace EndsInNumber

variable {cs : List Char} (h : EndsInNumber cs)
include h

theorem exists_concat : ∃ front d, cs = front ++ [d] ∧ d.isDigit = true := by
  obtain ⟨stem, n, rfl, _⟩ := h
  rcases List.eq_nil_or_concat' n.digits with hnil | ⟨front, d, hdigits⟩
  · exact absurd hnil n.nonempty
  · have hd : d ∈ n.digits := by simp [hdigits]
    exact ⟨stem ++ front, d, by simp [hdigits], isDigit_of_mem_digits hd⟩

theorem exists_splitDigits :
    ∃ stem ds, splitDigits cs = (stem, ds) ∧ ∀ c ∈ stem.getLast?, c = '-' ∨ c = '.' := by
  obtain ⟨stem, n, rfl, hstem⟩ := h
  refine ⟨stem, n.digits, splitDigits_append ?_ fun c hc => isDigit_of_mem_digits hc, hstem⟩
  intro c hc
  rcases hstem c hc with rfl | rfl <;> decide

end EndsInNumber

/-! ## Letters -/

theorem splitDigits_letter (cs : List Char) (letter : VersionLetter) :
    splitDigits (cs ++ letterChars (some letter)) = (cs ++ letterChars (some letter), []) := by
  have hlast : ∀ c ∈ (cs ++ letterChars (some letter)).getLast?, c.isDigit = false := by
    intro c hc
    obtain rfl : letter.1 = c := by simpa [letterChars] using hc
    exact isDigit_of_isLower letter.2
  have hsplit := splitDigits_append hlast (List.forall_mem_nil _)
  rwa [List.append_nil] at hsplit

section Letter

variable {cs : List Char} (h : EndsInNumber cs) (letter : Option VersionLetter)
include h

/-- Neither a number nor a letter behind it is taken for a revision. -/
theorem splitRevision_letter :
    splitRevision (cs ++ letterChars letter) = (cs ++ letterChars letter, none) := by
  cases letter with
  | none =>
    obtain ⟨stem, ds, hsplit, hstem⟩ := h.exists_splitDigits
    rw [letterChars, Option.map_none, Option.toList_none, List.append_nil]
    apply splitRevision_of_getLast
    intro hlast
    rw [hsplit] at hlast
    rcases hstem 'r' hlast with heq | heq <;> cases heq
  | some letter =>
    apply splitRevision_of_no_digits
    rw [splitDigits_letter]

/-- Neither a number nor a letter behind it is taken for a suffix. -/
theorem splitSuffix_letter : splitSuffix? (cs ++ letterChars letter) = none := by
  apply splitSuffix_eq_none
  rintro label ⟨start, hstart⟩
  obtain ⟨begin, x, y, hlabel, hx, hy, _⟩ := exists_label_end label
  cases letter with
  | none =>
    obtain ⟨stem, ds, hsplit, hstem⟩ := h.exists_splitDigits
    rw [letterChars, Option.map_none, Option.toList_none, List.append_nil, hsplit] at hstart
    have hlast : stem.getLast? = some y := getLast?_of_append_eq hstart (by simp [hlabel])
    rcases hstem y hlast with rfl | rfl <;> cases hy
  | some letter =>
    -- The character before the letter is a digit, but no label has one there.
    obtain ⟨front, d, rfl, hd⟩ := h.exists_concat
    rw [splitDigits_letter, hlabel] at hstart
    have hends : (start ++ begin ++ [x]) ++ [y] = (front ++ [d]) ++ [letter.1] := by
      simpa [letterChars] using hstart
    obtain ⟨hbefore, _⟩ := List.append_inj' hends rfl
    obtain ⟨_, hdigit⟩ := List.append_inj' hbefore rfl
    rw [List.singleton_inj.1 hdigit, hd] at hx
    cases hx

/-- A letter is found behind a number. -/
theorem splitLetter_append : splitLetter (cs ++ letterChars letter) = (cs, letter) := by
  cases letter with
  | none =>
    obtain ⟨front, d, rfl, hd⟩ := h.exists_concat
    have hlower : d.isLower = false := by
      by_contra hlower
      rw [isDigit_of_isLower (by simpa using hlower)] at hd
      cases hd
    simp [splitLetter, letterChars, hlower]
  | some letter => simp [splitLetter, letterChars, letter.2]

end Letter

/-! ## The place of the numbers -/

theorem numerals?_numberChars (major : Numeral) (minor : List Numeral) :
    numerals? (numberChars (major :: minor)) = some (major :: minor) := by
  have hdots : ∀ cs ∈ (major :: minor).map Numeral.digits, '.' ∉ cs := by
    intro cs hcs hdot
    obtain ⟨n, _, rfl⟩ := List.mem_map.1 hcs
    exact absurd (isDigit_of_mem_digits hdot) (by decide)
  have hread : ∀ ns : List Numeral, (ns.map Numeral.digits).mapM Numeral.ofChars? = some ns := by
    intro ns
    induction ns with
    | nil => rfl
    | cons n rest ih => simp [ih]
  rw [numerals?, numberChars, List.splitOn_intercalate '.' hdots (by simp), hread]

/-- A text with a hyphen does not consist of numbers. -/
theorem numerals?_of_hyphen {cs : List Char} (h : '-' ∈ cs) : numerals? cs = none := by
  rw [Option.eq_none_iff_forall_ne_some]
  intro numbers hnumbers
  rw [← numberChars_of_numerals? hnumbers] at h
  rcases mem_numberChars h with heq | hdigit
  · cases heq
  · cases hdigit

/-- Numbers are found at the start and behind a hyphen. -/
theorem splitNumbers_append {start : List Char}
    (hstart : start = [] ∨ start.getLast? = some '-') (major : Numeral) (minor : List Numeral) :
    splitNumbers? (start ++ numberChars (major :: minor)) = some (start, major :: minor) := by
  induction start with
  | nil =>
    have hread := numerals?_numberChars major minor
    rcases hchars : numberChars (major :: minor) with _ | ⟨c, cs⟩
    · rw [hchars] at hread
      cases hread
    · rw [hchars] at hread
      simp [splitNumbers?, hread]
  | cons c rest ih =>
    have hlast : (c :: rest).getLast? = some '-' := by simpa using hstart
    have hhyphen : '-' ∈ c :: (rest ++ numberChars (major :: minor)) := by
      have hmem := List.mem_of_getLast? hlast
      rw [← List.cons_append]
      exact List.mem_append_left _ hmem
    have hrest : rest = [] ∨ rest.getLast? = some '-' := by
      rcases rest with _ | ⟨next, others⟩
      · exact Or.inl rfl
      · exact Or.inr (by simpa using hlast)
    rw [List.cons_append, splitNumbers?, numerals?_of_hyphen hhyphen]
    dsimp only
    rw [ih hrest]
    rfl

/-! ## The whole version -/

/-- A version is found at the start and behind a hyphen. -/
theorem splitVersion_append {start : List Char}
    (hstart : start = [] ∨ start.getLast? = some '-') (v : Version) :
    splitVersion? (start ++ v.text.toList) = some (start, v) := by
  have hends := endsInNumber_append hstart v.major v.minor
  have hnumbers := splitNumbers_append hstart v.major v.minor
  have hletter := splitLetter_append hends v.letter
  have hsuffixes := splitSuffixes_append (splitSuffix_letter hends v.letter) v.suffixes
  have hrevision : splitRevision (start ++ v.text.toList) =
      (start ++ numberChars (v.major :: v.minor) ++ letterChars v.letter ++ suffixChars v.suffixes,
        v.revision) := by
    rw [toList_text, numbers, ← List.append_assoc, ← List.append_assoc, ← List.append_assoc]
    cases v.revision with
    | none =>
      rw [revisionChars, List.append_nil]
      exact splitRevision_suffixes (splitRevision_letter hends v.letter) v.suffixes
    | some n => exact splitRevision_append _ n
  simp only [splitVersion?, hrevision, hsuffixes, hletter, hnumbers]

/-- The version at the end of a text is found when it is the whole text or follows a hyphen. -/
theorem splitTrailing_append {q : String} (hq : q = "" ∨ q.toList.getLast? = some '-')
    (v : Version) : splitTrailing (q ++ v.text) = .ok (q, v) := by
  have hstart : q.toList = [] ∨ q.toList.getLast? = some '-' :=
    hq.imp (fun h => by simp [h]) id
  rw [splitTrailing, String.toList_append, splitVersion_append hstart v]
  simp

end Version
end EbuildGraph
