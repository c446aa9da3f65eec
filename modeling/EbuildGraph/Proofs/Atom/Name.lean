import EbuildGraph.Atom.Parser
import EbuildGraph.Proofs.Path.Components

/-!
# Names of categories and packages

A name that passes the checks has two parts with a slash between them, and neither holds a
character that has a meaning in paths or labels.  Every atom that was read has such a name.

Main results:

- Theorem {lit}`checkQualified_eq_ok`: the two parts of a checked name.
- Theorem {lit}`Atom.isQualified_of_parse`: an atom that was read has a checked name.
-/

namespace EbuildGraph

/-! ## Parts of names -/

/-- A character that neither starts nor continues a name is not in one. -/
theorem not_mem_of_isNameOf {admitted : Char → Bool} {cs : List Char} {c : Char}
    (h : isNameOf admitted cs = true) (hstart : isNameStart c = false)
    (hc : admitted c = false) : c ∉ cs := by
  intro hmem
  cases cs with
  | nil => cases h
  | cons first rest =>
    obtain ⟨hfirst, hrest⟩ := Bool.and_eq_true_iff.1 h
    rcases List.mem_cons.1 hmem with rfl | hmem
    · rw [hstart] at hfirst
      cases hfirst
    · have hadmitted := List.all_eq_true.1 hrest c hmem
      rw [hc] at hadmitted
      cases hadmitted

/-- A part of a name names a directory, and neither this one nor the one above it. -/
theorem ne_of_isNameOf {admitted : Char → Bool} {s : String}
    (h : isNameOf admitted s.toList = true) : s ≠ "" ∧ s ≠ "." ∧ s ≠ ".." := by
  refine ⟨?_, ?_, ?_⟩ <;> rintro rfl <;> cases h

/-- The two parts of a name of the form {lit}`category/package`. -/
structure NameParts (name category package : String) : Prop where
  name_eq : name = category ++ "/" ++ package
  category : isNameOf isCategoryChar category.toList = true
  package : isNameOf isPackageChar package.toList = true

/-- A checked name has two parts that are names. -/
theorem checkQualified_eq_ok {name : String} (h : checkQualified name = .ok ()) :
    ∃ category package, NameParts name category package := by
  unfold checkQualified at h
  split at h
  · cases h
  next category package hcut =>
  obtain ⟨parts, hparts, heq⟩ := Option.map_eq_some_iff.1 hcut
  obtain ⟨hfront, hback⟩ := Prod.mk.inj heq
  have hname := Text.eq_append_of_cutChars hparts
  split at h
  · cases h
  next hcategory =>
  refine ⟨category, package, ?_, ?_, ?_⟩
  · rw [← String.toList_inj, hname, ← hfront, ← hback]
    simp
  · unfold validateCategory at hcategory
    split at hcategory
    · next hvalid => exact hvalid
    · cases hcategory
  · unfold validatePackage at h
    split at h
    · cases h
    · next hvalid => simpa using hvalid

namespace NameParts

variable {name category package : String}

/-- The slash of a package name stands between its parts, not in them. -/
theorem slash_not_mem (h : NameParts name category package) :
    '/' ∉ category.toList ∧ '/' ∉ package.toList :=
  ⟨not_mem_of_isNameOf h.category (by decide) (by decide),
    not_mem_of_isNameOf h.package (by decide) (by decide)⟩

/-- A colon is in no package name, so that a slot can stand behind one. -/
theorem colon_not_mem (h : NameParts name category package) : ':' ∉ package.toList :=
  not_mem_of_isNameOf h.package (by decide) (by decide)

/-- A dot is in no package name, other than in a category. -/
theorem dot_not_mem (h : NameParts name category package) : '.' ∉ package.toList :=
  not_mem_of_isNameOf h.package (by decide) (by decide)

/-- At its slash a name is split into category and package. -/
theorem fields (h : NameParts name category package) :
    Text.fields '/' name = [category, package] := by
  obtain ⟨hcategory, hpackage⟩ := h.slash_not_mem
  have happend := @Text.fields_append '/' category package
  rw [Text.fields_of_not_mem hcategory, Text.fields_of_not_mem hpackage] at happend
  rw [h.name_eq]
  exact happend

/-- The directory of a package lies in that of its category. -/
theorem components_child (h : NameParts name category package) (p : Path) :
    (p.child name).components = p.components ++ [.normal category, .normal package] := by
  obtain ⟨hempty, hdot, hdots⟩ := ne_of_isNameOf h.category
  obtain ⟨hempty', hdot', hdots'⟩ := ne_of_isNameOf h.package
  rw [Path.components_child h.fields hempty hdot]
  simp [Path.body, Path.flagged, Path.Component.ofPiece, hempty, hdot, hdots, hempty', hdot',
    hdots']

end NameParts

/-! ## Characters of whole names -/

theorem isCategoryChar_of_isNameStart {c : Char} (h : isNameStart c = true) :
    isCategoryChar c = true := by
  rcases Bool.or_eq_true_iff.1 h with h | h <;> simp [isCategoryChar, isPackageChar, h]

/-- A checked name holds no characters but those of its two parts and the slash. -/
theorem not_mem_of_checkQualified {name : String} {c : Char} (h : checkQualified name = .ok ())
    (hc : isCategoryChar c = false) (hslash : c ≠ '/') : c ∉ name.toList := by
  obtain ⟨category, package, hparts⟩ := checkQualified_eq_ok h
  have hpackage : isPackageChar c = false := (Bool.or_eq_false_iff.1 hc).1
  have hstart : isNameStart c = false :=
    Bool.eq_false_iff.2 (mt isCategoryChar_of_isNameStart (Bool.eq_false_iff.1 hc))
  rw [hparts.name_eq, String.toList_append, String.toList_append, List.mem_append,
    List.mem_append, not_or, not_or]
  exact ⟨⟨not_mem_of_isNameOf hparts.category hstart hc, by simpa using hslash⟩,
    not_mem_of_isNameOf hparts.package hstart hpackage⟩

/-- A checked name starts as names do. -/
theorem exists_start_of_checkQualified {name : String} (h : checkQualified name = .ok ()) :
    ∃ c rest, name.toList = c :: rest ∧ isNameStart c = true := by
  obtain ⟨category, package, hparts⟩ := checkQualified_eq_ok h
  have hcategory := hparts.category
  rcases hchars : category.toList with _ | ⟨c, rest⟩
  · rw [hchars] at hcategory
    cases hcategory
  · rw [hchars] at hcategory
    refine ⟨c, rest ++ '/' :: package.toList, ?_, (Bool.and_eq_true_iff.1 hcategory).1⟩
    rw [hparts.name_eq, String.toList_append, String.toList_append, hchars]
    simp

namespace Atom

/-- Whether an atom names a package as packages are named. -/
def IsQualified (a : Atom) : Prop :=
  checkQualified a.name = .ok ()

instance (a : Atom) : Decidable a.IsQualified :=
  inferInstanceAs (Decidable (checkQualified a.name = .ok ()))

/-- An atom that was read has a checked name. -/
theorem isQualified_of_parse {s : String} {a : Atom} (h : Atom.parse s = .ok a) :
    a.IsQualified := by
  unfold parse at h
  split at h
  · cases h
  dsimp only at h
  split at h
  · cases h
  split at h
  · cases h
  next hname =>
  cases h
  exact hname

end Atom
end EbuildGraph
