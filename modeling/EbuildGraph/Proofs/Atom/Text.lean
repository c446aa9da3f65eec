import EbuildGraph.Proofs.Atom.Name
import EbuildGraph.Proofs.Version.Language

/-!
# Atoms as they are written

An atom is cut from both ends: its USE dependencies at the first bracket, its slot at the first
colon, then operator and star, and its version with the hyphen before it.  None of the cuts
takes from a neighbouring part, since names and versions hold no character that another part
is cut at, and behind a hyphen a version is found as a whole.

Main definitions:

- {lit}`Atom.assemble`: an atom put together from its written parts.

Main results:

- Theorem {lit}`Atom.eq_assemble_of_parse`: an atom that was read is made up of its parts.
- Theorem {lit}`Atom.parse_assemble`: an atom that was put together is read as its parts.
- Theorem {lit}`Atom.parse_text`: the text of an atom that was read is read as the same atom.
- Theorem {lit}`Atom.reads_as_written`: both together, for atoms and for written parts.
-/

namespace EbuildGraph

/-! ## Written parts -/

/-- A comparison with the text of the version. -/
def VersionBound.written (b : VersionBound) : Comparison × String :=
  (b.comparison, b.version.text)

namespace Atom

/-- A name, between an operator and the text of a version if there is a bound. -/
def frontText (name : String) (bound : Option (Comparison × String)) : String :=
  match bound with
  | some (comparison, version) =>
    comparison.operator ++ name ++ "-" ++ version ++ comparison.star
  | none => name

/-- A slot, if it is given, behind a colon. -/
def slotText : Option String → String
  | some slot => ":" ++ slot
  | none => ""

/-- USE dependencies, if there are any, between brackets. -/
def useText (dependencies : List String) : String :=
  if dependencies = [] then "" else "[" ++ String.intercalate "," dependencies ++ "]"

/-- An atom put together from its written parts. -/
def assemble (name : String) (bound : Option (Comparison × String)) (slot : Option String)
    (dependencies : List String) : String :=
  frontText name bound ++ slotText slot ++ useText dependencies

/-- The comparison of an atom and its version as it is written. -/
def writtenBound (a : Atom) : Option (Comparison × String) :=
  a.bound.map VersionBound.written

/-- An atom is written as its parts put together.  An empty slot is left out. -/
theorem text_eq_assemble (a : Atom) :
    a.text = assemble a.name a.writtenBound (if a.slot = "" then none else some a.slot)
      a.useDependencies := by
  have hslot : (if a.slot = "" then "" else ":" ++ a.slot) =
      slotText (if a.slot = "" then none else some a.slot) := by
    split
    · rfl
    · rfl
  rw [text, hslot, assemble, writtenBound]
  cases a.bound <;> rfl

/-! ## Cutting the ends -/

/-- Flags are split off a text behind which they were written in brackets. -/
theorem splitUse_assemble {front : String} {dependencies : List String} (input : String)
    (hopen : '[' ∉ front.toList) (hclose : ']' ∉ front.toList)
    (hdependencies : ∀ d ∈ dependencies, ',' ∉ d.toList) :
    splitUse input (front ++ useText dependencies) = .ok (front, dependencies) := by
  by_cases hnone : dependencies = []
  · have hbody : Text.dropEnd? "]" front = none :=
      Text.dropEnd?_of_not_mem (by decide : ']' ∈ "]".toList) hclose
    rw [useText, if_pos hnone, String.append_empty, splitUse, hbody, hnone]
  · have htext : front ++ useText dependencies =
        front ++ "[" ++ String.intercalate "," dependencies ++ "]" := by
      rw [useText, if_neg hnone]
      simp only [String.append_assoc]
    have hcut : Text.cut '[' (front ++ "[" ++ String.intercalate "," dependencies) =
        some (front, String.intercalate "," dependencies) :=
      Text.cut_eq_some (by simp) hopen
    have hfields : Text.fields ',' (String.intercalate "," dependencies) = dependencies :=
      Text.fields_intercalate hdependencies hnone
    simp only [splitUse, htext, Text.dropEnd?_append, hcut, hfields]

/-- A slot is split off a text without colons behind which it was written. -/
theorem splitSlot_append {front : String} (h : ':' ∉ front.toList) (slot : Option String) :
    splitSlot (front ++ slotText slot) = (front, slot.getD "") := by
  cases slot with
  | none =>
    rw [slotText, String.append_empty, splitSlot, Text.cut_of_not_mem h]
    rfl
  | some slot =>
    have hcut : Text.cut ':' (front ++ ":" ++ slot) = some (front, slot) :=
      Text.cut_eq_some (by simp) h
    rw [slotText, ← String.append_assoc, splitSlot, hcut]
    rfl

/-! ## Operator, star and version -/

/-- The comparison that an operator stands for before a star is known. -/
def unstarred : Comparison → Comparison
  | .pattern => .equal
  | comparison => comparison

/-- An operator is read before a name as it is read alone. -/
theorem splitOperator_append {s : String} {c : Char} {rest : List Char}
    (hs : s.toList = c :: rest) (hc : isNameStart c = true) (front : String) :
    splitOperator? (front ++ s) =
      (splitOperator? front).map fun parts => (parts.1, parts.2 ++ s) := by
  have hoperators : operators.all (fun entry => entry.1.toList.all (!isNameStart ·)) = true := by
    decide
  have hdrop : ∀ entry ∈ operators,
      Text.dropStart? entry.1 (front ++ s) = (Text.dropStart? entry.1 front).map (· ++ s) := by
    intro entry hentry
    refine Text.dropStart?_append_of_not_mem hs (fun hmem => ?_) front
    have hfalse := List.all_eq_true.1 (List.all_eq_true.1 hoperators entry hentry) c hmem
    rw [hc] at hfalse
    cases hfalse
  rw [splitOperator?, splitOperator?, List.map_findSome?, ← List.head?_filterMap,
    ← List.head?_filterMap]
  refine congrArg List.head? (List.filterMap_congr fun entry hentry => ?_)
  rw [hdrop entry hentry, Function.comp_apply, Option.map_map, Option.map_map]
  rfl

/-- Every operator is read as what it stands for, the one of patterns without its star. -/
theorem splitOperator_operator (comparison : Comparison) :
    splitOperator? comparison.operator = some (unstarred comparison, "") := by
  cases comparison <;> decide

/-- A star behind a text makes a pattern of an equality and nothing of any other comparison. -/
theorem splitStar_append {s : String} (h : '*' ∉ s.toList) (input : String)
    (comparison : Comparison) :
    splitStar input (unstarred comparison) (s ++ comparison.star) = .ok (comparison, s) := by
  by_cases hpattern : comparison = .pattern
  · rw [hpattern, Comparison.star, unstarred, splitStar, Text.dropEnd?_append]
    rfl
  · have hplain : unstarred comparison = comparison ∧ comparison.star = "" := by
      cases comparison with
      | pattern => exact absurd rfl hpattern
      | less | lessEqual | equal | approximate | greaterEqual | greater => exact ⟨rfl, rfl⟩
    have hdrop : Text.dropEnd? "*" s = none :=
      Text.dropEnd?_of_not_mem (by decide : '*' ∈ "*".toList) h
    rw [hplain.1, hplain.2, String.append_empty, splitStar, hdrop]

/-- A name and a version with a hyphen between them are told apart again. -/
theorem splitNameVersion_append (input name : String) (v : Version) :
    splitNameVersion input (name ++ "-" ++ v.text) = .ok (name, v) := by
  have hsplit : Version.splitTrailing (name ++ "-" ++ v.text) = .ok (name ++ "-", v) :=
    Version.splitTrailing_append (Or.inr (by simp)) v
  simp only [splitNameVersion, hsplit, Text.dropEnd?_append]

/-- A name and its bound are read as they were written. -/
theorem parseBound_frontText {name : String} (hname : checkQualified name = .ok ())
    (input : String) (bound : Option VersionBound) :
    parseBound input (frontText name (bound.map VersionBound.written)) =
      .ok (name, bound) := by
  obtain ⟨c, rest, hchars, hc⟩ := exists_start_of_checkQualified hname
  rcases bound with _ | ⟨comparison, version⟩
  · have hoperator := splitOperator_append hchars hc ""
    rw [String.empty_append] at hoperator
    rw [Option.map_none, frontText, parseBound, hoperator]
    rfl
  · have hstart : (name ++ "-" ++ version.text ++ comparison.star).toList =
        c :: (rest ++ ("-" ++ version.text ++ comparison.star).toList) := by
      simp [hchars]
    have htext : frontText name (some (comparison, version.text)) =
        comparison.operator ++ (name ++ "-" ++ version.text ++ comparison.star) := by
      simp only [frontText, String.append_assoc]
    have hoperator := splitOperator_append hstart hc comparison.operator
    rw [splitOperator_operator, ← htext, Option.map_some, String.empty_append] at hoperator
    have hstar : '*' ∉ (name ++ "-" ++ version.text).toList := by
      have hversion := Version.not_mem_text (by decide : Version.isVersionChar '*' = false) version
      have hname := not_mem_of_checkQualified hname (c := '*') (by decide) (by decide)
      simp [hname, hversion]
    simp only [Option.map_some, VersionBound.written, parseBound, hoperator,
      splitStar_append hstar, splitNameVersion_append]

/-- Whether a character may stand before the slot. -/
def isFrontChar (c : Char) : Bool :=
  isCategoryChar c || ['/', '<', '=', '>', '~', '*'].contains c

theorem isCategoryChar_of_isVersionChar {c : Char} (h : Version.isVersionChar c = true) :
    isCategoryChar c = true := by
  have halphanum : c.isDigit = true ∨ c.isLower = true → c.isAlphanum = true := by
    rintro (hdigit | hlower)
    · exact Bool.or_eq_true_iff.2 (Or.inr hdigit)
    · exact Bool.or_eq_true_iff.2 (Or.inl (Bool.or_eq_true_iff.2 (Or.inr hlower)))
  simp only [Version.isVersionChar, Bool.or_eq_true] at h
  rcases h with ((h | h) | h) | h
  · simp [isCategoryChar, isPackageChar, halphanum h]
  all_goals simp [isCategoryChar, isPackageChar, h]

/-- The part of an atom in front of its slot has characters of certain classes only. -/
theorem not_mem_frontText {name : String} (hname : checkQualified name = .ok ()) {c : Char}
    (hc : isFrontChar c = false) (bound : Option VersionBound) :
    c ∉ (frontText name (bound.map VersionBound.written)).toList := by
  have hcategory : isCategoryChar c = false := (Bool.or_eq_false_iff.1 hc).1
  have hslash : c ≠ '/' := by
    rintro rfl
    cases hc
  have hmem := not_mem_of_checkQualified hname hcategory hslash
  rcases bound with _ | ⟨comparison, version⟩
  · exact hmem
  · have hversion : Version.isVersionChar c = false :=
      Bool.eq_false_iff.2 (mt isCategoryChar_of_isVersionChar (Bool.eq_false_iff.1 hcategory))
    have hhyphen : c ≠ '-' := by
      rintro rfl
      cases hc
    have hmarks : (comparison.operator.toList ++ comparison.star.toList).all isFrontChar = true := by
      cases comparison <;> decide
    have hmark : c ∉ comparison.operator.toList ++ comparison.star.toList := by
      intro hmem
      rw [List.all_eq_true.1 hmarks c hmem] at hc
      cases hc
    obtain ⟨hoperator, hstar⟩ := not_or.1 (mt List.mem_append.2 hmark)
    simp [frontText, VersionBound.written, hmem, hoperator, hstar, hhyphen,
      Version.not_mem_text hversion version]

theorem not_mem_slotText {slot : Option String} {c : Char} (hcolon : c ≠ ':')
    (hc : c ∉ (slot.getD "").toList) : c ∉ (slotText slot).toList := by
  cases slot with
  | none => exact List.not_mem_nil
  | some slot =>
    rw [Option.getD_some] at hc
    simp [slotText, hcolon, hc]

/-- An atom that was put together from its written parts is read as those parts. -/
theorem parse_assemble {a : Atom} {slot : Option String} (hname : a.IsQualified)
    (hslot : slot.getD "" = a.slot) (hopen : '[' ∉ a.slot.toList) (hclose : ']' ∉ a.slot.toList)
    (hdependencies : ∀ d ∈ a.useDependencies, ',' ∉ d.toList) :
    parse (assemble a.name a.writtenBound slot a.useDependencies) = .ok a := by
  rw [← hslot] at hopen hclose
  have hfront : ∀ c : Char, isFrontChar c = false → c ≠ ':' → c ∉ (slot.getD "").toList →
      c ∉ (frontText a.name a.writtenBound ++ slotText slot).toList := by
    intro c hc hcolon hmem
    rw [String.toList_append, List.mem_append, not_or]
    exact ⟨not_mem_frontText hname hc a.bound, not_mem_slotText hcolon hmem⟩
  have hcolon : ':' ∉ (frontText a.name a.writtenBound).toList :=
    not_mem_frontText hname (by decide) a.bound
  have huse := splitUse_assemble (assemble a.name a.writtenBound slot a.useDependencies)
    (hfront '[' (by decide) (by decide) hopen) (hfront ']' (by decide) (by decide) hclose)
    hdependencies
  have hbound := parseBound_frontText hname
    (assemble a.name a.writtenBound slot a.useDependencies) a.bound
  rw [← writtenBound] at hbound
  rw [← assemble] at huse
  have hchecked : checkQualified a.name = .ok () := hname
  simp only [parse, huse, splitSlot_append hcolon, hslot, hbound, hchecked]

/-! ## What was read -/

/-- What the flags are split off is in front of them, and no flag has a comma. -/
theorem append_useText_of_splitUse {input s rest : String} {dependencies : List String}
    (h : splitUse input s = .ok (rest, dependencies)) :
    s = rest ++ useText dependencies ∧ ∀ d ∈ dependencies, ',' ∉ d.toList := by
  unfold splitUse at h
  split at h
  · cases h
    simp [useText]
  next body hbody =>
  split at h
  · cases h
  next head text hcut =>
  cases h
  refine ⟨?_, fun d => Text.not_mem_of_mem_fields⟩
  have htext : String.intercalate "," (Text.fields ',' text) = text :=
    Text.intercalate_fields ',' text
  rw [useText, if_neg (Text.fields_ne_nil ',' text), htext, ← Text.append_of_dropEnd hbody,
    ← String.toList_inj]
  simp [Text.eq_append_of_cut hcut]

/-- What a slot is split off is in front of it, with a colon between them. -/
theorem append_slotText_of_splitSlot (s : String) :
    ∃ slot : Option String, slot.getD "" = (splitSlot s).2 ∧
      s = (splitSlot s).1 ++ slotText slot := by
  unfold splitSlot
  split
  · next head slot hcut =>
    refine ⟨some slot, rfl, ?_⟩
    rw [← String.toList_inj, Text.eq_append_of_cut hcut]
    simp [slotText]
  · exact ⟨none, rfl, by simp [slotText]⟩

/-- An operator that was read is what the text starts with. -/
theorem eq_operator_of_splitOperator {s rest : String} {comparison : Comparison}
    (h : splitOperator? s = some (comparison, rest)) :
    s = comparison.operator ++ rest ∧ comparison.star = "" := by
  have hoperators : ∀ entry ∈ operators, entry.1 = entry.2.operator ∧ entry.2.star = "" := by
    decide
  obtain ⟨entry, hentry, hrest⟩ := List.exists_of_findSome?_eq_some h
  obtain ⟨tail, htail, heq⟩ := Option.map_eq_some_iff.1 hrest
  cases heq
  obtain ⟨hoperator, hstar⟩ := hoperators entry hentry
  rw [← hoperator]
  exact ⟨(Text.append_of_dropStart htail).symm, hstar⟩

/-- A star that was read is what the text ends with, and the operator stays. -/
theorem append_star_of_splitStar {input s rest : String} {comparison starred : Comparison}
    (hplain : comparison.star = "") (h : splitStar input comparison s = .ok (starred, rest)) :
    s = rest ++ starred.star ∧ starred.operator = comparison.operator := by
  unfold splitStar at h
  split at h
  · cases h
    simp [hplain]
  next head hhead =>
  split at h
  · next hequal =>
    cases h
    rw [hequal]
    exact ⟨(Text.append_of_dropEnd hhead).symm, rfl⟩
  · cases h

/-- A name and a version that were told apart make up the text with a hyphen between them. -/
theorem eq_append_of_splitNameVersion {input s name : String} {v : Version}
    (h : splitNameVersion input s = .ok (name, v)) : s = name ++ "-" ++ v.text := by
  unfold splitNameVersion at h
  split at h
  · cases h
  next start version hversion =>
  split at h
  · cases h
  next front hfront =>
  cases h
  rw [Text.append_of_dropEnd hfront, Version.append_text_of_splitTrailing hversion]

/-- What was read of a text in front of the slot is what it is written as. -/
theorem eq_frontText_of_parseBound {input s name : String} {bound : Option VersionBound}
    (h : parseBound input s = .ok (name, bound)) :
    s = frontText name (bound.map VersionBound.written) := by
  unfold parseBound at h
  split at h
  · cases h
    rfl
  next comparison rest hoperator =>
  split at h
  · cases h
  next starred body hstar =>
  split at h
  · cases h
  next name version hversion =>
  cases h
  obtain ⟨hs, hplain⟩ := eq_operator_of_splitOperator hoperator
  obtain ⟨hrest, hsame⟩ := append_star_of_splitStar hplain hstar
  rw [hs, hrest, eq_append_of_splitNameVersion hversion, ← hsame]
  simp only [Option.map_some, VersionBound.written, frontText, String.append_assoc]

/-- An atom that was read is made up of its written parts. -/
theorem eq_assemble_of_parse {s : String} {a : Atom} (h : parse s = .ok a) :
    (∀ d ∈ a.useDependencies, ',' ∉ d.toList) ∧ ∃ slot : Option String,
      slot.getD "" = a.slot ∧ s = assemble a.name a.writtenBound slot a.useDependencies := by
  unfold parse at h
  split at h
  · cases h
  next rest dependencies huse =>
  obtain ⟨slot, hslot, hrest⟩ := append_slotText_of_splitSlot rest
  dsimp only at h
  split at h
  · cases h
  next name bound hbound =>
  split at h
  · cases h
  cases h
  obtain ⟨hs, hdependencies⟩ := append_useText_of_splitUse huse
  refine ⟨hdependencies, slot, hslot, ?_⟩
  rw [assemble, writtenBound, ← eq_frontText_of_parseBound hbound, ← hrest]
  exact hs

/-- Without a slot nothing stands between the bound and the USE dependencies. -/
theorem text_of_no_slot {a : Atom} (h : a.slot = "") :
    a.text = frontText a.name a.writtenBound ++ useText a.useDependencies := by
  rw [text_eq_assemble, if_pos h, assemble, slotText, String.append_empty]

/-- The text of an atom that was read is the text it was read from, but for a colon that an
empty slot follows. -/
theorem text_of_parse {s : String} {a : Atom} (h : parse s = .ok a) :
    s = a.text ∨ a.slot = "" ∧
      s = frontText a.name a.writtenBound ++ ":" ++ useText a.useDependencies := by
  obtain ⟨_, slot, hslot, hs⟩ := eq_assemble_of_parse h
  cases slot with
  | none =>
    left
    rw [hs, text_of_no_slot hslot.symm, assemble, slotText, String.append_empty]
  | some slot =>
    obtain rfl : slot = a.slot := hslot
    by_cases hempty : a.slot = ""
    · right
      rw [hs, assemble, slotText, hempty]
      exact ⟨rfl, rfl⟩
    · left
      rw [hs, text_eq_assemble, if_neg hempty]

/-- The text of an atom that was read is read as the same atom. -/
theorem parse_text {s : String} {a : Atom} (h : parse s = .ok a) : parse a.text = .ok a := by
  rcases text_of_parse h with heq | ⟨hempty, _⟩
  · rw [← heq]
    exact h
  · rw [text_eq_assemble, if_pos hempty]
    exact parse_assemble (isQualified_of_parse h) hempty.symm (by simp [hempty])
      (by simp [hempty]) (eq_assemble_of_parse h).1

/-- An operator with a word of the language of versions is a bound as it is written. -/
theorem exists_bound {bound : Option (Comparison × String)}
    (h : ∀ b ∈ bound, b.2.toList ∈ Version.language) :
    ∃ b : Option VersionBound, b.map VersionBound.written = bound := by
  rcases bound with _ | ⟨comparison, text⟩
  · exact ⟨none, rfl⟩
  · obtain ⟨v, hv⟩ := Version.mem_language_iff.1 (h _ rfl)
    obtain rfl : v.text = text := String.toList_inj.1 hv
    exact ⟨some ⟨comparison, v⟩, rfl⟩

/-- Atoms are read as they are written.  The text of an atom that was read is the text it was
read from, without a colon that an empty slot follows, and it is read as the same atom.  An
atom put together from a checked name, an operator and the text of a version or neither, a
slot without brackets and USE dependencies without commas is read as these parts. -/
theorem reads_as_written :
    (∀ (s : String) (a : Atom), parse s = .ok a →
      (s = a.text ∨ a.slot = "" ∧
        s = frontText a.name a.writtenBound ++ ":" ++ useText a.useDependencies ∧
        a.text = frontText a.name a.writtenBound ++ useText a.useDependencies) ∧
      parse a.text = .ok a) ∧
      (∀ (name : String) (bound : Option (Comparison × String)) (slot : Option String)
        (dependencies : List String), checkQualified name = .ok () →
        (∀ b ∈ bound, b.2.toList ∈ Version.language) →
        '[' ∉ (slot.getD "").toList → ']' ∉ (slot.getD "").toList →
        (∀ d ∈ dependencies, ',' ∉ d.toList) →
        ∃ a, parse (assemble name bound slot dependencies) = .ok a ∧ a.name = name ∧
          a.writtenBound = bound ∧ a.slot = slot.getD "" ∧ a.useDependencies = dependencies) := by
  constructor
  · intro s a h
    exact ⟨(text_of_parse h).imp_right fun ⟨hempty, hs⟩ => ⟨hempty, hs, text_of_no_slot hempty⟩,
      parse_text h⟩
  · intro name bound slot dependencies hname hversion hopen hclose hdependencies
    obtain ⟨b, rfl⟩ := exists_bound hversion
    have hread := parse_assemble (a := ⟨name, b, slot.getD "", dependencies⟩) hname
      (rfl : slot.getD "" = _) hopen hclose hdependencies
    exact ⟨_, hread, rfl, rfl, rfl, rfl⟩

/-- A colon without a slot is dropped, and the star stays with the version. -/
theorem drops_empty_slot :
    ∃ a, parse "=dev-rust/atomic-polyfill-0.1*:[std,-alloc(-)]" = .ok a ∧
      a.writtenBound = some (.pattern, "0.1") ∧ a.useDependencies = ["std", "-alloc(-)"] ∧
      a.text = "=dev-rust/atomic-polyfill-0.1*[std,-alloc(-)]" ∧ parse a.text = .ok a := by
  have hversion : ∀ b ∈ some (Comparison.pattern, "0.1"), b.2.toList ∈ Version.language := by
    rintro b ⟨⟩
    exact Version.mem_language_iff.2
      ⟨⟨.zero, [⟨['1'], by decide, by decide⟩], none, [], none⟩, by decide⟩
  obtain ⟨a, hparse, hname, hbound, hslot, hdependencies⟩ :=
    reads_as_written.2 "dev-rust/atomic-polyfill" (some (.pattern, "0.1")) (some "")
      ["std", "-alloc(-)"] (by decide) hversion (by decide) (by decide) (by decide)
  have htext : a.text = "=dev-rust/atomic-polyfill-0.1*[std,-alloc(-)]" := by
    rw [text_of_no_slot hslot, hname, hbound, hdependencies]
    decide
  exact ⟨a, hparse, hbound, hdependencies, htext, (reads_as_written.1 _ a hparse).2⟩

end Atom
end EbuildGraph
