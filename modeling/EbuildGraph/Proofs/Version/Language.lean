import EbuildGraph.Configuration.ListFile
import EbuildGraph.Proofs.Text.Split
import EbuildGraph.Proofs.Version.Reading
import Mathlib.Computability.Language

/-!
# The language of versions

Versions are the words of a regular language, which is told from the left, while they are read
from the right.  Both ways agree: a text is read exactly when it is a word, and behind a hyphen
the word at the end of a text is the version that is read there.

Main definitions:

- {lit}`Version.language`: the texts that are versions.

Main results:

- Theorem {lit}`mem_language_iff`: the words of the language are the texts of versions.
- Theorem {lit}`parse_eq_ok_iff`: a text is read as the version that it is the text of.
- Theorem {lit}`reads_language`: reading and writing of versions, alone and behind a name.
-/

namespace EbuildGraph
namespace Version

open scoped Computability

/-! ## The language -/

/-- The texts of one character of a class. -/
def oneOf (p : Char → Bool) : Language Char :=
  {cs | ∃ c, p c = true ∧ cs = [c]}

/-- One word or none. -/
def atMostOnce (l : Language Char) : Language Char :=
  1 + l

/-- The words {lit}`[0-9]+`. -/
def numberLanguage : Language Char :=
  oneOf Char.isDigit * (oneOf Char.isDigit)∗

/-- The words {lit}`_(alpha|beta|pre|rc|p)[0-9]*`. -/
def suffixLanguage : Language Char :=
  {['_']} *
    ({"alpha".toList} + {"beta".toList} + {"pre".toList} + {"rc".toList} + {"p".toList}) *
    (oneOf Char.isDigit)∗

/-- The texts that are versions:
{lit}`[0-9]+(\.[0-9]+)*[a-z]?(_(alpha|beta|pre|rc|p)[0-9]*)*(-r[0-9]+)?`. -/
def language : Language Char :=
  numberLanguage * ({['.']} * numberLanguage)∗ * atMostOnce (oneOf Char.isLower) *
    suffixLanguage∗ * atMostOnce ({['-', 'r']} * numberLanguage)

/-! ## Words of repeated parts -/

theorem mem_singleton_iff {cs word : List Char} : cs ∈ ({word} : Language Char) ↔ cs = word :=
  Iff.rfl

theorem mem_oneOf_iff {p : Char → Bool} {cs : List Char} :
    cs ∈ oneOf p ↔ ∃ c, p c = true ∧ cs = [c] :=
  Iff.rfl

/-- Words of a repeated part are made of what the words of the part are made of. -/
theorem mem_kstar_iff_flatMap {α : Type} {l : Language Char} {f : α → List Char}
    (h : ∀ cs, cs ∈ l ↔ ∃ a, f a = cs) {cs : List Char} :
    cs ∈ l∗ ↔ ∃ parts : List α, parts.flatMap f = cs := by
  rw [Language.mem_kstar]
  constructor
  · rintro ⟨words, rfl, hwords⟩
    induction words with
    | nil => exact ⟨[], rfl⟩
    | cons word rest ih =>
      obtain ⟨hword, hrest⟩ := List.forall_mem_cons.1 hwords
      obtain ⟨part, rfl⟩ := (h word).1 hword
      obtain ⟨parts, hparts⟩ := ih hrest
      exact ⟨part :: parts, by rw [List.flatMap_cons, hparts, List.flatten_cons]⟩
  · rintro ⟨parts, rfl⟩
    refine ⟨parts.map f, List.flatMap_def .., ?_⟩
    intro word hword
    obtain ⟨part, _, rfl⟩ := List.mem_map.1 hword
    exact (h _).2 ⟨part, rfl⟩

theorem mem_oneOf_kstar_iff {p : Char → Bool} {cs : List Char} :
    cs ∈ (oneOf p)∗ ↔ ∀ c ∈ cs, p c = true := by
  have hone : ∀ word, word ∈ oneOf p ↔ ∃ a : { c : Char // p c = true }, [a.1] = word := by
    intro word
    rw [mem_oneOf_iff]
    constructor
    · rintro ⟨c, hc, rfl⟩
      exact ⟨⟨c, hc⟩, rfl⟩
    · rintro ⟨a, rfl⟩
      exact ⟨a.1, a.2, rfl⟩
  rw [mem_kstar_iff_flatMap hone]
  constructor
  · rintro ⟨parts, rfl⟩ c hc
    obtain ⟨a, _, hmem⟩ := List.mem_flatMap.1 hc
    rw [List.mem_singleton.1 hmem]
    exact a.2
  · intro hall
    refine ⟨cs.attach.map fun c => ⟨c.1, hall c.1 c.2⟩, ?_⟩
    simp [List.flatMap_map, List.flatMap_singleton']

/-! ## Words of the parts -/

/-- The words of the language of numbers are what numerals are written as. -/
theorem mem_numberLanguage_iff {cs : List Char} :
    cs ∈ numberLanguage ↔ ∃ n : Numeral, n.digits = cs := by
  rw [numberLanguage, Language.mem_mul]
  constructor
  · rintro ⟨first, ⟨c, hc, rfl⟩, rest, hrest, rfl⟩
    have hdigits : ([c] ++ rest).all Char.isDigit = true :=
      List.all_eq_true.2 (List.forall_mem_cons.2 ⟨hc, mem_oneOf_kstar_iff.1 hrest⟩)
    exact ⟨⟨[c] ++ rest, by simp, hdigits⟩, rfl⟩
  · rintro ⟨n, rfl⟩
    rcases hdigits : n.digits with _ | ⟨c, rest⟩
    · exact absurd hdigits n.nonempty
    · have hall : ∀ d ∈ c :: rest, d.isDigit = true := by
        intro d hd
        exact isDigit_of_mem_digits (hdigits ▸ hd)
      obtain ⟨hc, hrest⟩ := List.forall_mem_cons.1 hall
      exact ⟨[c], ⟨c, hc, rfl⟩, rest, mem_oneOf_kstar_iff.2 hrest, rfl⟩

/-- The words behind the underscore are those of the labels. -/
theorem mem_labelWords_iff {word : List Char} :
    word ∈ ({"alpha".toList} + {"beta".toList} + {"pre".toList} + {"rc".toList} + {"p".toList} :
      Language Char) ↔ ∃ label : SuffixKind, label.text.toList = '_' :: word := by
  simp only [Language.mem_add, mem_singleton_iff]
  constructor
  · rintro ((((rfl | rfl) | rfl) | rfl) | rfl)
    · exact ⟨.alpha, rfl⟩
    · exact ⟨.beta, rfl⟩
    · exact ⟨.pre, rfl⟩
    · exact ⟨.rc, rfl⟩
    · exact ⟨.p, rfl⟩
  · rintro ⟨label, hlabel⟩
    cases label with
    | alpha => exact Or.inl (Or.inl (Or.inl (Or.inl (List.cons.inj hlabel).2.symm)))
    | beta => exact Or.inl (Or.inl (Or.inl (Or.inr (List.cons.inj hlabel).2.symm)))
    | pre => exact Or.inl (Or.inl (Or.inr (List.cons.inj hlabel).2.symm))
    | rc => exact Or.inl (Or.inr (List.cons.inj hlabel).2.symm)
    | p => exact Or.inr (List.cons.inj hlabel).2.symm

/-- The words of the language of suffixes are what suffixes are written as. -/
theorem mem_suffixLanguage_iff (cs : List Char) :
    cs ∈ suffixLanguage ↔ ∃ s : Suffix, s.text.toList = cs := by
  rw [suffixLanguage, Language.mem_mul]
  constructor
  · rintro ⟨front, hfront, digits, hdigits, rfl⟩
    obtain ⟨underscore, hunderscore, word, hword, rfl⟩ := Language.mem_mul.1 hfront
    obtain ⟨label, hlabel⟩ := mem_labelWords_iff.1 hword
    refine ⟨⟨label, Numeral.ofChars? digits⟩, ?_⟩
    rw [Suffix.text, String.toList_append, String.toList_ofList,
      optionalDigits_ofChars? (mem_oneOf_kstar_iff.1 hdigits), hlabel,
      mem_singleton_iff.1 hunderscore]
    rfl
  · rintro ⟨s, rfl⟩
    obtain ⟨word, hword⟩ : ∃ word, s.label.text.toList = '_' :: word := by
      cases s.label <;> exact ⟨_, rfl⟩
    have hdigits : optionalDigits s.number ∈ (oneOf Char.isDigit)∗ :=
      mem_oneOf_kstar_iff.2 fun c hc => isDigit_of_mem_optionalDigits hc
    refine ⟨['_'] ++ word, ?_, _, hdigits, ?_⟩
    · exact Language.mem_mul.2
        ⟨['_'], rfl, word, mem_labelWords_iff.2 ⟨s.label, hword⟩, rfl⟩
    · rw [Suffix.text, String.toList_append, String.toList_ofList, hword]
      rfl

theorem numberChars_cons (n : Numeral) (rest : List Numeral) :
    numberChars (n :: rest) = n.digits ++ rest.flatMap fun m => '.' :: m.digits := by
  induction rest generalizing n with
  | nil => simp [numberChars_singleton]
  | cons m rest ih => rw [numberChars_cons_cons, ih, List.flatMap_cons, List.cons_append]

/-- Numbers separated by dots are what a version begins with. -/
theorem mem_numbers_iff {cs : List Char} :
    cs ∈ numberLanguage * ({['.']} * numberLanguage)∗ ↔
      ∃ major minor, numberChars (major :: minor) = cs := by
  have hdotted : ∀ word, word ∈ ({['.']} * numberLanguage : Language Char) ↔
      ∃ m : Numeral, '.' :: m.digits = word := by
    intro word
    rw [Language.mem_mul]
    constructor
    · rintro ⟨dot, rfl, digits, hdigits, rfl⟩
      obtain ⟨m, rfl⟩ := mem_numberLanguage_iff.1 hdigits
      exact ⟨m, rfl⟩
    · rintro ⟨m, rfl⟩
      exact ⟨['.'], rfl, m.digits, mem_numberLanguage_iff.2 ⟨m, rfl⟩, rfl⟩
  rw [Language.mem_mul]
  constructor
  · rintro ⟨first, hfirst, rest, hrest, rfl⟩
    obtain ⟨major, rfl⟩ := mem_numberLanguage_iff.1 hfirst
    obtain ⟨minor, rfl⟩ := (mem_kstar_iff_flatMap hdotted).1 hrest
    exact ⟨major, minor, numberChars_cons major minor⟩
  · rintro ⟨major, minor, rfl⟩
    exact ⟨major.digits, mem_numberLanguage_iff.2 ⟨major, rfl⟩, _,
      (mem_kstar_iff_flatMap hdotted).2 ⟨minor, rfl⟩, (numberChars_cons major minor).symm⟩

/-- At most one small letter follows the numbers. -/
theorem mem_letter_iff {cs : List Char} :
    cs ∈ atMostOnce (oneOf Char.isLower) ↔ ∃ letter, letterChars letter = cs := by
  rw [atMostOnce, Language.mem_add, Language.mem_one, mem_oneOf_iff]
  constructor
  · rintro (rfl | ⟨c, hc, rfl⟩)
    · exact ⟨none, rfl⟩
    · exact ⟨some ⟨c, hc⟩, rfl⟩
  · rintro ⟨letter, rfl⟩
    cases letter with
    | none => exact Or.inl rfl
    | some letter => exact Or.inr ⟨letter.1, letter.2, rfl⟩

/-- At most one revision ends a version. -/
theorem mem_revision_iff {cs : List Char} :
    cs ∈ atMostOnce ({['-', 'r']} * numberLanguage) ↔ ∃ revision, revisionChars revision = cs := by
  rw [atMostOnce, Language.mem_add, Language.mem_one, Language.mem_mul]
  constructor
  · rintro (rfl | ⟨start, rfl, digits, hdigits, rfl⟩)
    · exact ⟨none, rfl⟩
    · obtain ⟨n, rfl⟩ := mem_numberLanguage_iff.1 hdigits
      exact ⟨some n, rfl⟩
  · rintro ⟨revision, rfl⟩
    cases revision with
    | none => exact Or.inl rfl
    | some n => exact Or.inr ⟨_, rfl, n.digits, mem_numberLanguage_iff.2 ⟨n, rfl⟩, rfl⟩

/-! ## Words are texts of versions -/

/-- The words of the language are the texts of versions. -/
theorem mem_language_iff {cs : List Char} : cs ∈ language ↔ ∃ v : Version, v.text.toList = cs := by
  rw [language, Language.mem_mul]
  constructor
  · rintro ⟨unrevised, hunrevised, revisionPart, hrevision, rfl⟩
    obtain ⟨plain, hplain, suffixPart, hsuffixes, rfl⟩ := Language.mem_mul.1 hunrevised
    obtain ⟨numberPart, hnumbers, letterPart, hletter, rfl⟩ := Language.mem_mul.1 hplain
    obtain ⟨major, minor, rfl⟩ := mem_numbers_iff.1 hnumbers
    obtain ⟨letter, rfl⟩ := mem_letter_iff.1 hletter
    obtain ⟨suffixes, rfl⟩ := (mem_kstar_iff_flatMap mem_suffixLanguage_iff).1 hsuffixes
    obtain ⟨revision, rfl⟩ := mem_revision_iff.1 hrevision
    exact ⟨⟨major, minor, letter, suffixes, revision⟩, toList_text _⟩
  · rintro ⟨v, rfl⟩
    rw [toList_text]
    have hnumbers := mem_numbers_iff.2 ⟨v.major, v.minor, rfl⟩
    have hletter := mem_letter_iff.2 ⟨v.letter, rfl⟩
    have hsuffixes := (mem_kstar_iff_flatMap mem_suffixLanguage_iff).2 ⟨v.suffixes, rfl⟩
    have hrevision := mem_revision_iff.2 ⟨v.revision, rfl⟩
    exact ⟨_, Language.append_mem_mul (Language.append_mem_mul hnumbers hletter) hsuffixes, _,
      hrevision, rfl⟩

/-- A text is read as the version that it is the text of, and no other text is read. -/
theorem parse_eq_ok_iff {s : String} {v : Version} : parse s = .ok v ↔ v.text = s := by
  constructor
  · exact text_of_parse
  · rintro rfl
    have hsplit := splitTrailing_append (Or.inl rfl) v
    rw [String.empty_append] at hsplit
    rw [parse, hsplit]
    rfl

end Version

/-! ## Names with versions -/

/-- A name with a version behind it is read as that name and that version. -/
theorem Configuration.providedOfLine_text (p : PackageVersion) :
    providedOfLine p.text = .ok p := by
  have hsplit : Version.splitTrailing p.text = .ok (p.name ++ "-", p.version) :=
    Version.splitTrailing_append (Or.inr (by simp)) p.version
  simp only [providedOfLine, hsplit, Text.dropEnd?_append]

/-- Versions are read as they are written.  A text is read as a version exactly when it is a
word of the language, and what precedes a version that was found at the end of a text makes up
the text with it.  At the start and behind a hyphen the whole word is found, so that a name,
whatever it is, and a version behind it can be told apart in one way only. -/
theorem Version.reads_language :
    (∀ s : String, (∃ v, parse s = .ok v) ↔ s.toList ∈ language) ∧
      (∀ (s start : String) (v : Version), splitTrailing s = .ok (start, v) →
        start ++ v.text = s) ∧
      (∀ q t : String, (q = "" ∨ q.toList.getLast? = some '-') → t.toList ∈ language →
        ∃ v : Version, v.text = t ∧ splitTrailing (q ++ t) = .ok (q, v)) ∧
      (∀ p : PackageVersion,
        splitTrailing p.text = .ok (p.name ++ "-", p.version) ∧
          Configuration.providedOfLine p.text = .ok p ∧
          ∀ other : PackageVersion, other.text = p.text → other = p) := by
  refine ⟨?_, ?_, ?_, ?_⟩
  · intro s
    rw [mem_language_iff]
    constructor
    · rintro ⟨v, hv⟩
      exact ⟨v, by rw [parse_eq_ok_iff.1 hv]⟩
    · rintro ⟨v, hv⟩
      exact ⟨v, parse_eq_ok_iff.2 (String.toList_inj.1 hv)⟩
  · intro s start v h
    exact append_text_of_splitTrailing h
  · intro q t hq ht
    obtain ⟨v, hv⟩ := mem_language_iff.1 ht
    obtain rfl : v.text = t := String.toList_inj.1 hv
    exact ⟨v, rfl, splitTrailing_append hq v⟩
  · intro p
    refine ⟨splitTrailing_append (Or.inr (by simp)) p.version,
      Configuration.providedOfLine_text p, ?_⟩
    intro other htext
    have hother := Configuration.providedOfLine_text other
    rw [htext, Configuration.providedOfLine_text p] at hother
    exact (Except.ok.inj hother).symm

/-- A version is found behind a text that holds other versions itself. -/
theorem Version.splits_versioned_name :
    "2.0b_rc1_p-r4".toList ∈ language ∧
      ∃ v : Version, v.text = "2.0b_rc1_p-r4" ∧
        splitTrailing ("net-misc/foo-1.2-r3-" ++ "2.0b_rc1_p-r4") =
          .ok ("net-misc/foo-1.2-r3-", v) ∧
        "net-misc/foo-1.2-r3-" ++ v.text = "net-misc/foo-1.2-r3-2.0b_rc1_p-r4" := by
  have hword : "2.0b_rc1_p-r4".toList ∈ language :=
    mem_language_iff.2 ⟨{
      major := ⟨['2'], by decide, by decide⟩
      minor := [.zero]
      letter := some ⟨'b', by decide⟩
      suffixes := [⟨.rc, some ⟨['1'], by decide, by decide⟩⟩, ⟨.p, none⟩]
      revision := some ⟨['4'], by decide, by decide⟩ }, by decide⟩
  obtain ⟨v, hv, hsplit⟩ :=
    reads_language.2.2.1 "net-misc/foo-1.2-r3-" "2.0b_rc1_p-r4" (Or.inr (by decide)) hword
  exact ⟨hword, v, hv, hsplit, reads_language.2.1 _ _ v hsplit⟩

end EbuildGraph
