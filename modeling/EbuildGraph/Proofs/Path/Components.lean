import EbuildGraph.Path.Basic
import EbuildGraph.Proofs.Text.Split
import Mathlib.Data.List.TakeWhile

/-!
# Components of paths

The steps that take a path apart work on its spelling.  What they do to its components is
what their names say: the parent has all but the last, a child has those of its name
besides, and what remains below another path has those that are left.  They keep pieces as
a path has them, and pieces of that kind are read back as they are spelled.

Main results:

- Theorem {lit}`components_spell`: spelled pieces have the components that they stand for.
- Theorems {lit}`components_parent`, {lit}`components_stripStart` and
  {lit}`components_child`: the components after each step.
-/

namespace EbuildGraph

namespace Path

/-- Paths of one spelling are the same. -/
theorem eq_of_text {p q : Path} (h : p.text = q.text) : p = q := by
  cases p
  cases q
  rw [mk.injEq]
  exact h

/-! ## Pieces -/

/-- The components that pieces stand for. -/
def body (parts : List (String × Bool)) : List Component :=
  (parts.filter Prod.snd).map fun piece => Component.ofPiece piece.1

/-- Pieces as a path may have them between its slashes. -/
structure WellPieced (absolute : Bool) (parts : List (String × Bool)) : Prop where
  plain : ∀ piece ∈ parts, '/' ∉ piece.1.toList
  flags : ∀ piece ∈ if absolute then parts else parts.tail,
    piece.2 = (piece.1 != "" && piece.1 != ".")
  first : absolute = false → ∀ piece ∈ parts.head?, piece.1 ≠ "" ∧ piece.2 = true

/-- The components of a path are what its pieces stand for, behind the root if it is absolute. -/
theorem components_eq (p : Path) :
    p.components = if p.isAbsolute then .root :: body p.pieces else body p.pieces :=
  rfl

/-- A piece that stands between slashes. -/
def flagged (s : String) : String × Bool :=
  (s, s != "" && s != ".")

/-- Pieces that are marked as those between slashes are told by their texts. -/
theorem map_flagged {parts : List (String × Bool)}
    (h : ∀ piece ∈ parts, piece.2 = (piece.1 != "" && piece.1 != ".")) :
    (parts.map Prod.fst).map flagged = parts := by
  have hid : ∀ piece ∈ parts, (flagged ∘ Prod.fst) piece = id piece := fun piece hpiece =>
    Prod.ext rfl (h piece hpiece).symm
  rw [List.map_map, List.map_congr_left hid, List.map_id]

/-- Behind the first slash of an absolute path every piece stands between slashes. -/
theorem pieces_absolute (rest : String) :
    (⟨"/" ++ rest⟩ : Path).isAbsolute = true ∧
      (⟨"/" ++ rest⟩ : Path).pieces = (Text.fields '/' rest).map flagged := by
  have habsolute : (⟨"/" ++ rest⟩ : Path).isAbsolute = true := by simp [isAbsolute]
  have hfields : Text.fields '/' ("/" ++ rest) = "" :: Text.fields '/' rest :=
    Text.fields_append "" rest
  refine ⟨habsolute, ?_⟩
  rw [pieces, habsolute, hfields]
  rfl

/-- The first piece of a relative path may be a dot, the others stand between slashes. -/
theorem pieces_relative {p : Path} {first : String} {rest : List String}
    (hrelative : p.isAbsolute = false) (h : Text.fields '/' p.text = first :: rest) :
    p.pieces = (first, first != "") :: rest.map flagged := by
  rw [pieces, hrelative, h]
  rfl

/-- An absolute path is a slash and the text behind it. -/
theorem text_of_isAbsolute {p : Path} (h : p.isAbsolute = true) : ∃ rest, p = ⟨"/" ++ rest⟩ := by
  obtain ⟨text⟩ := p
  rcases hchars : text.toList with _ | ⟨c, cs⟩
  · simp [isAbsolute, hchars] at h
  · obtain rfl : c = '/' := by simpa [isAbsolute, hchars] using h
    refine ⟨String.ofList cs, ?_⟩
    rw [mk.injEq, ← String.toList_inj]
    simp [hchars]

/-- The first piece of a relative path is empty only if the path is. -/
theorem fields_relative {p : Path} (hrelative : p.isAbsolute = false) (hne : p.text ≠ "") :
    ∃ first rest, Text.fields '/' p.text = first :: rest ∧ first ≠ "" := by
  rcases hchars : p.text.toList with _ | ⟨c, cs⟩
  · exact absurd (String.toList_eq_nil_iff.1 hchars) hne
  have hc : (c == '/') = false := by
    simpa [isAbsolute, hchars] using hrelative
  rcases hsplit : cs.splitOn '/' with _ | ⟨first, rest⟩
  · exact absurd hsplit (List.splitOn_ne_nil '/' cs)
  refine ⟨String.ofList (c :: first), rest.map String.ofList, ?_, by simp⟩
  rw [Text.fields, hchars, List.splitOn_cons_eq_if_modifyHead, hc, hsplit]
  rfl

/-- A text whose first part is not empty is a relative path. -/
theorem isAbsolute_eq_false_of_fields {s first : String} {rest : List String}
    (h : Text.fields '/' s = first :: rest) (hfirst : first ≠ "") :
    (⟨s⟩ : Path).isAbsolute = false := by
  rw [← Bool.not_eq_true]
  intro habsolute
  obtain ⟨other, hother⟩ := text_of_isAbsolute habsolute
  obtain rfl : s = "" ++ String.singleton '/' ++ other := congrArg Path.text hother
  rw [Text.fields_append, Text.fields_of_not_mem (by simp)] at h
  exact hfirst (List.cons.inj h).1.symm

/-- A text without a slash is a relative path. -/
theorem isAbsolute_eq_false_of_not_mem {s : String} (h : '/' ∉ s.toList) :
    (⟨s⟩ : Path).isAbsolute = false := by
  rw [← Bool.not_eq_true]
  intro habsolute
  obtain ⟨rest, hrest⟩ := text_of_isAbsolute habsolute
  obtain rfl : s = "/" ++ rest := congrArg Path.text hrest
  exact h (by simp)

/-- Pieces of a path that is not empty are as paths have them. -/
theorem wellPieced_pieces {p : Path} (hne : p.text ≠ "") : WellPieced p.isAbsolute p.pieces := by
  cases habsolute : p.isAbsolute with
  | true =>
    obtain ⟨rest, rfl⟩ := text_of_isAbsolute habsolute
    rw [(pieces_absolute rest).2]
    refine ⟨?_, ?_, nofun⟩
    · intro piece hpiece
      obtain ⟨s, hs, rfl⟩ := List.mem_map.1 hpiece
      exact Text.not_mem_of_mem_fields hs
    · intro piece hpiece
      obtain ⟨s, _, rfl⟩ := List.mem_map.1 hpiece
      rfl
  | false =>
    obtain ⟨first, rest, hfields, hfirst⟩ := fields_relative habsolute hne
    rw [pieces_relative habsolute hfields]
    refine ⟨?_, ?_, ?_⟩
    · intro piece hpiece
      have hmem : piece.1 ∈ Text.fields '/' p.text := by
        rw [hfields]
        rcases List.mem_cons.1 hpiece with rfl | hrest
        · exact List.mem_cons_self
        · obtain ⟨s, hs, rfl⟩ := List.mem_map.1 hrest
          exact List.mem_cons_of_mem first hs
      exact Text.not_mem_of_mem_fields hmem
    · intro piece hpiece
      obtain ⟨s, _, rfl⟩ := List.mem_map.1 hpiece
      rfl
    · rintro - piece hpiece
      obtain rfl : (first, first != "") = piece := by simpa using hpiece
      exact ⟨hfirst, by simpa using hfirst⟩

/-- The empty path is relative and has one piece that does not count. -/
theorem pieces_empty {p : Path} (h : p.text = "") :
    p.isAbsolute = false ∧ p.pieces = [("", false)] := by
  obtain ⟨text⟩ := p
  subst h
  exact ⟨rfl, rfl⟩

@[simp]
theorem components_empty : (⟨""⟩ : Path).components = [] :=
  rfl

/-- Pieces at the front are as paths have them when all are. -/
theorem WellPieced.of_front {absolute : Bool} {parts start : List (String × Bool)}
    (h : WellPieced absolute parts) (hstart : start <+: parts) : WellPieced absolute start := by
  obtain ⟨rest, rfl⟩ := hstart
  refine ⟨fun piece hpiece => h.plain piece (List.mem_append_left rest hpiece), ?_, ?_⟩
  · intro piece hpiece
    apply h.flags piece
    cases absolute with
    | true => exact List.mem_append_left rest hpiece
    | false =>
      cases start with
      | nil => exact absurd hpiece List.not_mem_nil
      | cons first others => exact List.mem_append_left rest hpiece
  · intro hrelative piece hpiece
    apply h.first hrelative piece
    cases start with
    | nil => exact absurd hpiece (by simp)
    | cons first others => exact hpiece

/-- What begins with a component is a relative path when it ends one of any kind. -/
theorem WellPieced.of_suffix {absolute : Bool} {parts rest : List (String × Bool)}
    {piece : String × Bool} (h : WellPieced absolute parts) (hrest : piece :: rest <:+ parts)
    (hpiece : piece.2 = true) : WellPieced false (piece :: rest) := by
  obtain ⟨start, rfl⟩ := hrest
  have hflags : ∀ other ∈ rest, other.2 = (other.1 != "" && other.1 != ".") := by
    intro other hother
    apply h.flags other
    cases absolute with
    | true => simp [hother]
    | false => cases start <;> simp [hother]
  refine ⟨fun other hother => h.plain other (List.mem_append_right start hother), hflags, ?_⟩
  rintro - other hother
  obtain rfl : piece = other := by simpa using hother
  refine ⟨?_, hpiece⟩
  cases absolute with
  | true =>
    have hflag := h.flags piece (by simp)
    rw [hpiece] at hflag
    have hboth : piece.1 ≠ "" ∧ piece.1 ≠ "." := by simpa using hflag.symm
    exact hboth.1
  | false =>
    cases start with
    | nil => exact (h.first rfl piece (by simp)).1
    | cons first others =>
      have hflag := h.flags piece (by simp)
      rw [hpiece] at hflag
      have hboth : piece.1 ≠ "" ∧ piece.1 ≠ "." := by simpa using hflag.symm
      exact hboth.1

/-- Spelled pieces have the components that they stand for. -/
theorem components_spell {absolute : Bool} {parts : List (String × Bool)}
    (h : WellPieced absolute parts) :
    (spell absolute parts).components =
      if absolute then .root :: body parts else body parts := by
  have hplain : ∀ name ∈ parts.map Prod.fst, '/' ∉ name.toList := by
    intro name hname
    obtain ⟨piece, hpiece, rfl⟩ := List.mem_map.1 hname
    exact h.plain piece hpiece
  cases absolute with
  | true =>
    obtain ⟨habsolute, hpieces⟩ := pieces_absolute (String.intercalate "/" (parts.map Prod.fst))
    rw [spell, if_pos rfl, components_eq, habsolute, if_pos rfl, if_pos rfl, hpieces]
    cases parts with
    | nil => rfl
    | cons piece rest =>
      have hfields := Text.fields_intercalate hplain (by simp)
      rw [show String.singleton '/' = "/" from rfl] at hfields
      have hflagged : ((piece :: rest).map Prod.fst).map flagged = piece :: rest :=
        map_flagged h.flags
      rw [hfields, hflagged]
  | false =>
    cases parts with
    | nil => rfl
    | cons piece rest =>
      obtain ⟨hname, hpiece⟩ := h.first rfl piece (by simp)
      have hfields := Text.fields_intercalate hplain (by simp)
      rw [show String.singleton '/' = "/" from rfl] at hfields
      have htext : spell false (piece :: rest) =
          ⟨String.intercalate "/" ((piece :: rest).map Prod.fst)⟩ := by
        simp [spell]
      have hrelative : (spell false (piece :: rest)).isAbsolute = false := by
        rw [htext]
        exact isAbsolute_eq_false_of_fields hfields hname
      have hpieces : (spell false (piece :: rest)).pieces = piece :: rest := by
        have hrest : (rest.map Prod.fst).map flagged = rest := map_flagged h.flags
        rw [htext] at hrelative ⊢
        rw [pieces_relative hrelative hfields, hrest]
        exact congrArg (· :: rest) (Prod.ext rfl (by simp [hname, hpiece]))
      rw [components_eq, hrelative, hpieces]

/-! ## Trimming -/

/-- Pieces are removed at the end only. -/
theorem trimPieces_front (parts : List (String × Bool)) : trimPieces parts <+: parts := by
  rw [trimPieces, ← List.reverse_suffix, List.reverse_reverse]
  exact List.dropWhile_suffix _

/-- Pieces one behind another stand for their components one behind another. -/
theorem body_append (parts others : List (String × Bool)) :
    body (parts ++ others) = body parts ++ body others := by
  simp [body]

/-- Pieces that do not count stand for nothing. -/
theorem body_eq_nil {parts : List (String × Bool)} (h : ∀ piece ∈ parts, piece.2 = false) :
    body parts = [] := by
  rw [body, List.filter_eq_nil_iff.2 fun piece hpiece => by simp [h piece hpiece], List.map_nil]

/-- Trimmed pieces are the front of all pieces up to the last component. -/
theorem trimPieces_append (parts : List (String × Bool)) :
    ∃ rest, trimPieces parts ++ rest = parts ∧ ∀ piece ∈ rest, piece.2 = false := by
  refine ⟨(parts.reverse.takeWhile fun piece => !piece.2).reverse, ?_, ?_⟩
  · rw [trimPieces, ← List.reverse_append, List.takeWhile_append_dropWhile, List.reverse_reverse]
  · intro piece hpiece
    simpa using List.all_eq_true.1 List.all_takeWhile piece (List.mem_reverse.1 hpiece)

/-- The pieces that are removed at the end stand for nothing. -/
@[simp]
theorem body_trimPieces (parts : List (String × Bool)) : body (trimPieces parts) = body parts := by
  obtain ⟨rest, heq, hrest⟩ := trimPieces_append parts
  have hbody := body_append (trimPieces parts) rest
  rw [heq, body_eq_nil hrest, List.append_nil] at hbody
  exact hbody.symm

/-- Pieces without those at the front that are no components. -/
theorem body_dropWhile (parts : List (String × Bool)) :
    body (parts.dropWhile fun piece => !piece.2) = body parts := by
  have hstart : body (parts.takeWhile fun piece => !piece.2) = [] :=
    body_eq_nil fun piece hpiece => by
      simpa using List.all_eq_true.1 List.all_takeWhile piece hpiece
  have hbody := body_append (parts.takeWhile fun piece => !piece.2)
    (parts.dropWhile fun piece => !piece.2)
  rw [List.takeWhile_append_dropWhile, hstart, List.nil_append] at hbody
  exact hbody.symm

/-- The last piece that is left counts, if any is left. -/
theorem trimPieces_cases (parts : List (String × Bool)) :
    trimPieces parts = [] ∨
      ∃ start piece, trimPieces parts = start ++ [piece] ∧ piece.2 = true := by
  have hhead := List.head?_dropWhile_not (fun piece => !piece.2) parts.reverse
  rcases hdrop : parts.reverse.dropWhile fun piece => !piece.2 with _ | ⟨piece, rest⟩
  · exact Or.inl (by rw [trimPieces, hdrop, List.reverse_nil])
  · rw [hdrop] at hhead
    refine Or.inr ⟨rest.reverse, piece, ?_, by simpa using hhead⟩
    rw [trimPieces, hdrop, List.reverse_cons]

/-- A component is spelled by the piece that stands for it. -/
theorem Component.text_ofPiece (piece : String) : (ofPiece piece).text = piece := by
  unfold ofPiece
  split
  · next h => exact h.symm
  split
  · next h => exact h.symm
  · rfl

/-- The last piece that is spelled stands behind a slash, if anything is before it. -/
theorem text_spell_concat (absolute : Bool) (start : List (String × Bool))
    (piece : String × Bool) :
    ∃ before, (spell absolute (start ++ [piece])).text = before ++ piece.1 ∧
      (before = "" ∨ ∃ rest, before = rest ++ "/") := by
  cases start with
  | nil =>
    refine ⟨if absolute then "/" else "", by simp [spell], ?_⟩
    cases absolute
    · exact Or.inl rfl
    · exact Or.inr ⟨"", rfl⟩
  | cons first others =>
    refine ⟨(if absolute then "/" else "") ++
      String.intercalate "/" ((first :: others).map Prod.fst) ++ "/", ?_, Or.inr ⟨_, rfl⟩⟩
    simp only [spell, List.map_append]
    rw [String.intercalate_append_of_ne_nil (by simp) (by simp)]
    simp [String.append_assoc]

/-! ## Parents -/

/-- The last component and what is before it. -/
theorem parent?_eq_some {p q : Path} (h : p.parent? = some q) :
    ∃ start piece rest, p.pieces = start ++ piece :: rest ∧ piece.2 = true ∧
      (∀ other ∈ rest, other.2 = false) ∧ q = spell p.isAbsolute (trimPieces start) := by
  unfold parent? at h
  split at h
  · cases h
  · next piece others hdrop =>
    have hall : (p.pieces.reverse.takeWhile fun piece => !piece.2) ++ piece :: others =
        p.pieces.reverse := by
      rw [← hdrop, List.takeWhile_append_dropWhile]
    refine ⟨others.reverse, piece, (p.pieces.reverse.takeWhile fun piece => !piece.2).reverse,
      ?_, ?_, ?_, (Option.some.inj h).symm⟩
    · have hback := congrArg List.reverse hall
      rw [List.reverse_append, List.reverse_cons, List.reverse_reverse] at hback
      rw [List.append_assoc, List.singleton_append] at hback
      exact hback.symm
    · have hhead := List.head?_dropWhile_not (fun piece : String × Bool => !piece.2)
        p.pieces.reverse
      rw [hdrop] at hhead
      simpa using hhead
    · intro other hother
      simpa using List.all_eq_true.1 List.all_takeWhile other (List.mem_reverse.1 hother)

/-- A path without a parent has at most the root as component. -/
theorem components_of_parent_eq_none {p : Path} (h : p.parent? = none) :
    p.components = [] ∨ p.components = [.root] := by
  have hbody : body p.pieces = [] := by
    unfold parent? at h
    split at h
    · next hdrop =>
      apply body_eq_nil
      intro piece hpiece
      have hall := List.dropWhile_eq_nil_iff.1 hdrop piece (List.mem_reverse.2 hpiece)
      simpa using hall
    · cases h
  rw [components_eq, hbody]
  cases p.isAbsolute
  · exact Or.inl rfl
  · exact Or.inr rfl

/-- What stands before a piece that counts are well-formed pieces of a path. -/
theorem wellPieced_front {p : Path} {start rest : List (String × Bool)} {piece : String × Bool}
    (hpieces : p.pieces = start ++ piece :: rest) (hpiece : piece.2 = true) :
    WellPieced p.isAbsolute start := by
  have hne : p.text ≠ "" := by
    intro hempty
    have hmem : piece ∈ p.pieces := by simp [hpieces]
    rw [(pieces_empty hempty).2, List.mem_singleton] at hmem
    rw [hmem] at hpiece
    cases hpiece
  exact (wellPieced_pieces hne).of_front ⟨piece :: rest, hpieces.symm⟩

/-- The parent of a path has all its components but the last. -/
theorem components_parent {p q : Path} (h : p.parent? = some q) :
    ∃ last, p.components = q.components ++ [last] := by
  obtain ⟨start, piece, rest, hpieces, hpiece, hrest, rfl⟩ := parent?_eq_some h
  have hstart := wellPieced_front hpieces hpiece
  have hbody : body p.pieces = body start ++ [Component.ofPiece piece.1] := by
    rw [hpieces, body_append, ← List.singleton_append, body_append, body_eq_nil hrest]
    simp [body, hpiece]
  refine ⟨Component.ofPiece piece.1, ?_⟩
  rw [components_spell (hstart.of_front (trimPieces_front start)), body_trimPieces,
    components_eq, hbody]
  split
  · rw [List.cons_append]
  · rfl

/-- A path with further components has a parent, which has all but the last of them. -/
theorem exists_parent_of_components {p : Path} {front : List Component} {last : Component}
    (h : p.components = front ++ [last]) (hfront : front ≠ []) :
    ∃ q, p.parent? = some q ∧ q.components = front := by
  cases hparent : p.parent? with
  | none =>
    rcases components_of_parent_eq_none hparent with hnone | hroot
    · simp [hnone] at h
    · rw [hroot, ← List.nil_append [Component.root]] at h
      exact absurd (List.append_inj_left' h rfl).symm hfront
  | some q =>
    obtain ⟨other, hother⟩ := components_parent hparent
    exact ⟨q, rfl, List.append_inj_left' (hother.symm.trans h) rfl⟩

/-- The ancestors of a path are its parent and the ancestors of that. -/
theorem ancestorsUpTo_succ {p q : Path} (h : p.parent? = some q) (n : Nat) :
    ancestorsUpTo (n + 1) p = q :: ancestorsUpTo n q := by
  rw [ancestorsUpTo, h]

/-- The file name of a path is its last component, if that is a name. -/
theorem fileName?_of_components {p : Path} {front : List Component} {name : String}
    (h : p.components = front ++ [.normal name]) : p.fileName? = some name := by
  rw [fileName?, h, List.getLast?_concat]

/-- After the last slash of a parent there is a colon only if its last component has one. -/
theorem colon_mem_of_parent {p q : Path} (h : p.parent? = some q) {start rest : List Char}
    (hcolon : q.text.toList = start ++ ':' :: rest) (hrest : '/' ∉ rest) :
    ∃ last ∈ q.components.getLast?, ':' ∈ last.text.toList := by
  obtain ⟨front, piece, others, hpieces, hpiece, _, rfl⟩ := parent?_eq_some h
  have hwell := (wellPieced_front hpieces hpiece).of_front (trimPieces_front front)
  rcases trimPieces_cases front with hnil | ⟨init, last, hlast, hflag⟩
  · have hmem : ':' ∈ (spell p.isAbsolute []).text.toList := by
      rw [← hnil, hcolon]
      simp
    cases habsolute : p.isAbsolute <;> simp [spell, habsolute] at hmem
  rw [hlast] at hcolon hwell ⊢
  refine ⟨Component.ofPiece last.1, ?_, ?_⟩
  · have hbody : body (init ++ [last]) = body init ++ [Component.ofPiece last.1] := by
      rw [body_append]
      simp [body, hflag]
    rw [components_spell hwell, hbody]
    split
    · rw [← List.cons_append, List.getLast?_concat]
      rfl
    · rw [List.getLast?_concat]
      rfl
  rw [Component.text_ofPiece]
  obtain ⟨before, htext, hbefore⟩ := text_spell_concat p.isAbsolute init last
  rw [htext, String.toList_append] at hcolon
  rcases List.append_eq_append_iff.1 hcolon with ⟨middle, _, hmiddle⟩ | ⟨middle, hfront, hmiddle⟩
  · rw [hmiddle]
    simp
  -- The colon cannot be before the slash that ends what precedes the last piece.
  rcases middle with _ | ⟨c, middle⟩
  · rw [List.nil_append] at hmiddle
    rw [← hmiddle]
    exact List.mem_cons_self
  rw [List.cons_append] at hmiddle
  obtain ⟨rfl, rfl⟩ := List.cons.inj hmiddle
  rcases hbefore with rfl | ⟨outer, rfl⟩
  · simp at hfront
  · exfalso
    apply hrest
    have hslash : (start ++ ':' :: middle).getLast? = some '/' := by
      rw [← hfront]
      simp
    rcases List.eq_nil_or_concat middle with rfl | ⟨inner, c, rfl⟩
    · simp at hslash
    · rw [List.concat_eq_append, ← List.cons_append, ← List.append_assoc,
        List.getLast?_concat] at hslash
      simp [Option.some.inj hslash]

/-! ## Paths below others -/

/-- Pieces are removed from the front only. -/
theorem dropComponents_suffix (n : Nat) (parts : List (String × Bool)) :
    dropComponents n parts <:+ parts := by
  induction parts generalizing n with
  | nil => cases n <;> exact List.suffix_refl _
  | cons piece rest ih =>
    cases n with
    | zero => exact List.suffix_refl _
    | succ n =>
      rw [dropComponents]
      split
      · exact (ih n).trans (List.suffix_cons piece rest)
      · exact (ih (n + 1)).trans (List.suffix_cons piece rest)

/-- What is left of pieces stands for what is left of the components. -/
theorem body_dropComponents (n : Nat) (parts : List (String × Bool)) :
    body (dropComponents n parts) = (body parts).drop n := by
  induction parts generalizing n with
  | nil => cases n <;> simp [dropComponents, body]
  | cons piece rest ih =>
    cases n with
    | zero => rfl
    | succ n =>
      rw [dropComponents]
      split
      · next hpiece => rw [ih]; simp [body, hpiece]
      · next hpiece => rw [ih]; simp [body, hpiece]

/-- Pieces at the end of a path stand for the same components when they are spelled. -/
theorem components_spell_suffix {p : Path} {parts : List (String × Bool)} (hp : p.text ≠ "")
    (hparts : parts <:+ p.pieces) :
    (spell false (trimPieces (parts.dropWhile fun piece => !piece.2))).components = body parts := by
  rw [← body_dropWhile parts]
  have hsuffix := (List.dropWhile_suffix fun piece => !piece.2).trans hparts
  have hhead := List.head?_dropWhile_not (fun piece => !piece.2) parts
  rcases hdrop : parts.dropWhile fun piece => !piece.2 with _ | ⟨piece, rest⟩
  · rw [hdrop]
    rfl
  · rw [hdrop] at hsuffix hhead ⊢
    have hpiece : piece.2 = true := by simpa using hhead
    have hwell := (wellPieced_pieces hp).of_suffix hsuffix hpiece
    rw [components_spell (hwell.of_front (trimPieces_front _)), body_trimPieces]
    rfl

/-- What remains of a path has the components that follow those of the other. -/
theorem components_stripStart {p base q : Path} (h : p.stripStart? base = some q) :
    base.components ++ q.components = p.components := by
  unfold stripStart? at h
  split at h
  case isFalse => cases h
  next hprefix =>
  obtain ⟨tail, htail⟩ := List.isPrefixOf_iff_prefix.1 hprefix
  split at h
  · next hempty =>
    obtain rfl := Option.some.inj h
    rw [List.isEmpty_iff.1 hempty, List.nil_append]
    by_cases hp : p.text = ""
    · obtain ⟨text⟩ := p
      subst hp
      rfl
    · rw [components_spell ((wellPieced_pieces hp).of_front (trimPieces_front _)),
        body_trimPieces, components_eq]
  · next hbase =>
    obtain rfl := Option.some.inj h
    have hp : p.text ≠ "" := by
      intro hp
      obtain ⟨hrelative, hpieces⟩ := pieces_empty hp
      rw [components_eq p, hrelative, hpieces] at htail
      exact hbase (List.isEmpty_iff.2 (List.append_eq_nil_iff.1 htail).1)
    have hcount : (body p.pieces).drop
        (base.components.length - (if p.isAbsolute then 1 else 0)) = tail := by
      rw [components_eq p] at htail
      split at htail
      · next habsolute =>
        rcases hbase' : base.components with _ | ⟨first, others⟩
        · simp [hbase'] at hbase
        · rw [hbase', List.cons_append] at htail
          rw [if_pos habsolute, ← (List.cons.inj htail).2]
          simp
      · next hrelative =>
        rw [if_neg hrelative, ← htail]
        simp
    rw [components_spell_suffix hp (dropComponents_suffix _ _), body_dropComponents, hcount, htail]

/-- What a path begins with by components can be removed from it. -/
theorem exists_stripStart {p base : Path} (h : base.components <+: p.components) :
    ∃ q, p.stripStart? base = some q := by
  unfold stripStart?
  rw [if_pos (List.isPrefixOf_iff_prefix.2 h)]
  split
  · exact ⟨_, rfl⟩
  · exact ⟨_, rfl⟩

/-! ## Children -/

/-- Behind a slash the pieces of a text follow those of a path. -/
theorem pieces_append {s : String} (hs : s ≠ "") (t : String) :
    (⟨s ++ "/" ++ t⟩ : Path).isAbsolute = (⟨s⟩ : Path).isAbsolute ∧
      (⟨s ++ "/" ++ t⟩ : Path).pieces =
        (⟨s⟩ : Path).pieces ++ (Text.fields '/' t).map flagged := by
  have hfields : Text.fields '/' (s ++ "/" ++ t) = Text.fields '/' s ++ Text.fields '/' t :=
    Text.fields_append s t
  have habsolute : (⟨s ++ "/" ++ t⟩ : Path).isAbsolute = (⟨s⟩ : Path).isAbsolute := by
    rcases hchars : s.toList with _ | ⟨c, cs⟩
    · exact absurd (String.toList_eq_nil_iff.1 hchars) hs
    · simp [isAbsolute, hchars]
  refine ⟨habsolute, ?_⟩
  cases hroot : (⟨s⟩ : Path).isAbsolute with
  | true =>
    obtain ⟨rest, hrest⟩ := text_of_isAbsolute hroot
    obtain rfl : s = "/" ++ rest := by simpa using hrest
    have hrestFields : Text.fields '/' (rest ++ "/" ++ t) =
        Text.fields '/' rest ++ Text.fields '/' t :=
      Text.fields_append rest t
    rw [show "/" ++ rest ++ "/" ++ t = "/" ++ (rest ++ "/" ++ t) by simp [String.append_assoc],
      (pieces_absolute _).2, (pieces_absolute _).2, hrestFields, List.map_append]
  | false =>
    obtain ⟨first, rest, hfirst, _⟩ := fields_relative hroot hs
    rw [hfirst] at hfields
    rw [List.cons_append] at hfields
    rw [pieces_relative (habsolute.trans hroot) hfields, pieces_relative hroot hfirst,
      List.map_append, List.cons_append]

theorem body_fields_empty : body ((Text.fields '/' "").map flagged) = [] :=
  rfl

/-- Behind a slash the names of a text are further components. -/
theorem components_append (s t : String) :
    (⟨s ++ "/" ++ t⟩ : Path).components =
      (⟨s ++ "/"⟩ : Path).components ++ body ((Text.fields '/' t).map flagged) := by
  by_cases hs : s = ""
  · subst hs
    obtain ⟨habsolute, hpieces⟩ := pieces_absolute t
    rw [String.empty_append, components_eq, habsolute, hpieces]
    rfl
  · obtain ⟨habsolute, hpieces⟩ := pieces_append hs t
    obtain ⟨hroot, hslash⟩ := pieces_append hs ""
    rw [String.append_empty] at hroot hslash
    rw [components_eq, components_eq, habsolute, hroot, hpieces, hslash, body_append, body_append,
      body_fields_empty, List.append_nil]
    cases (⟨s⟩ : Path).isAbsolute <;> rfl

/-- A slash at the end of a path does not count. -/
theorem components_slash {s : String} (hs : s ≠ "") :
    (⟨s ++ "/"⟩ : Path).components = (⟨s⟩ : Path).components := by
  obtain ⟨habsolute, hpieces⟩ := pieces_append hs ""
  rw [String.append_empty] at habsolute hpieces
  rw [components_eq, components_eq, habsolute, hpieces, body_append, body_fields_empty,
    List.append_nil]

/-- A child is spelled as its name behind what spells the path. -/
theorem exists_child_text (p : Path) :
    ∃ before, (before = "" ∧ p.components = [] ∨
      ∃ s, before = s ++ "/" ∧ (⟨s ++ "/"⟩ : Path).components = p.components) ∧
      ∀ name, (⟨name⟩ : Path).isAbsolute = false → p.child name = ⟨before ++ name⟩ := by
  have hjoin : ∀ name, (⟨name⟩ : Path).isAbsolute = false → p.child name =
      if p.text = "" || p.text.toList.getLast? == some '/' then ⟨p.text ++ name⟩
      else ⟨p.text ++ "/" ++ name⟩ := by
    intro name hrelative
    rw [child, join, hrelative, if_neg Bool.false_ne_true]
  by_cases hopen : (p.text = "" || p.text.toList.getLast? == some '/') = true
  · simp only [if_pos hopen] at hjoin
    refine ⟨p.text, ?_, hjoin⟩
    rcases Bool.or_eq_true_iff.1 hopen with hempty | hslash
    · obtain ⟨text⟩ := p
      obtain rfl : text = "" := by simpa using hempty
      exact Or.inl ⟨rfl, components_empty⟩
    · have hend : p.text.toList.getLast? = some '/' := by simpa using hslash
      obtain ⟨front, hfront⟩ := List.getLast?_eq_some_iff.1 hend
      have htext : p.text = String.ofList front ++ "/" := by
        rw [← String.toList_inj]
        simp [hfront]
      exact Or.inr ⟨String.ofList front, htext, by rw [← htext]⟩
  · simp only [if_neg hopen] at hjoin
    have hne : p.text ≠ "" := by
      intro hempty
      simp [hempty] at hopen
    exact ⟨p.text ++ "/", Or.inr ⟨p.text, rfl, components_slash hne⟩, hjoin⟩

/-- Names of different children are different. -/
theorem child_injective {p : Path} {s t : String} (hs : (⟨s⟩ : Path).isAbsolute = false)
    (ht : (⟨t⟩ : Path).isAbsolute = false) (h : p.child s = p.child t) : s = t := by
  obtain ⟨before, _, hchild⟩ := exists_child_text p
  rw [hchild s hs, hchild t ht, mk.injEq] at h
  exact (String.append_right_inj before).1 h

/-- A child has the components of the path and those of its name. -/
theorem components_child {p : Path} {name first : String} {rest : List String}
    (hname : Text.fields '/' name = first :: rest) (hfirst : first ≠ "") (hdot : first ≠ ".") :
    (p.child name).components = p.components ++ body ((first :: rest).map flagged) := by
  have hrelative := isAbsolute_eq_false_of_fields hname hfirst
  obtain ⟨before, hbefore, hchild⟩ := exists_child_text p
  rw [hchild name hrelative]
  rcases hbefore with ⟨rfl, hnone⟩ | ⟨s, rfl, hslash⟩
  · have hcounts : (first, first != "") = flagged first := by simp [flagged, hfirst, hdot]
    rw [hnone, String.empty_append, components_eq, hrelative, if_neg Bool.false_ne_true,
      pieces_relative hrelative hname, hcounts]
    rfl
  · rw [components_append, hname, hslash]

/-- A name without a slash stands for one further component at most. -/
theorem components_child_of_not_mem {p : Path} {name : String} (hp : p.components ≠ [])
    (hname : '/' ∉ name.toList) :
    (p.child name).components = p.components ++ body [flagged name] := by
  obtain ⟨before, hbefore, hchild⟩ := exists_child_text p
  rw [hchild name (isAbsolute_eq_false_of_not_mem hname)]
  rcases hbefore with ⟨-, hnone⟩ | ⟨s, rfl, hslash⟩
  · exact absurd hnone hp
  · rw [components_append, Text.fields_of_not_mem hname, hslash]
    rfl

/-- A piece between slashes stands for its component unless it is empty or a dot. -/
theorem body_flagged (name : String) :
    body [flagged name] = if name = "" ∨ name = "." then [] else [Component.ofPiece name] := by
  by_cases hempty : name = "" <;> by_cases hdot : name = "." <;>
    simp [body, flagged, hempty, hdot]

/-- A name without a slash that ends the path of a child is the name of the child, or the path is
that of the parent. -/
theorem fileName?_child {p : Path} {name other : String} (hp : p.components ≠ [])
    (hname : '/' ∉ name.toList) (h : (p.child name).fileName? = some other) :
    p.fileName? = some other ∨
      name = other ∧ (p.child name).components = p.components ++ [.normal name] := by
  have hcomponents := components_child_of_not_mem hp hname
  rw [body_flagged] at hcomponents
  split at hcomponents
  · left
    rwa [fileName?, hcomponents, List.append_nil] at h
  · right
    rw [fileName?, hcomponents, List.getLast?_concat, Component.ofPiece] at h
    rw [Component.ofPiece] at hcomponents
    split_ifs at h hcomponents
    exact ⟨Option.some.inj h, hcomponents⟩

end Path
end EbuildGraph
