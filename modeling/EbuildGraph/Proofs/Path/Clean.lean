import EbuildGraph.Proofs.Path.Components
import EbuildGraph.Text.Blank
import Mathlib.Data.List.Induction
import Mathlib.Data.Set.List

/-!
# Cleaned paths

Cleaning goes over the components of a path with a stack of the steps that are kept.  Names are
put on the stack and taken off it by steps to the parent; below them there is the root, or for a
relative path the steps to the parent that no name was left for.  Such a stack is spelled as a
path that has exactly these components, and cleaning that path makes the same stack again.

Main definitions:

- {lit}`Path.keptSteps`: the stack that cleaning a path ends with.
- {lit}`Path.IsKept`: the stacks that cleaning works with.
- {lit}`Path.IsDownward`, {lit}`Path.IsRooted`: paths that lead over names only, from where they
  start or from the root.

Main results:

- Theorem {lit}`isKept_keptSteps`: what cleaning keeps is such a stack.
- Theorem {lit}`components_clean`: the components of a cleaned path are the steps that were kept.
- Theorem {lit}`keptSteps_join`: cleaning a joined path goes on with what was kept of the first.
- Theorem {lit}`foldl_cleanStep_append`: steps that keep names only do not touch what is below.
- Theorem {lit}`clean_isNormalizer`: cleaned paths are in a normal form, which cleaning keeps and
  which takes the place of the path in front of others.
-/

namespace EbuildGraph
namespace Path

/-! ## Components of a path -/

/-- Whether a text is the name of a component. -/
structure IsComponentName (name : String) : Prop where
  nonempty : name ≠ ""
  not_current : name ≠ "."
  not_parent : name ≠ ".."
  slash_not_mem : '/' ∉ name.toList

/-- Whether a step is spelled between slashes as the piece that stands for it. -/
structure Component.IsSpelled (c : Component) : Prop where
  slash_not_mem : '/' ∉ c.text.toList
  nonempty : c.text ≠ ""
  not_current : c.text ≠ "."
  ofPiece_text : ofPiece c.text = c

/-- A step to the parent is spelled by two dots. -/
theorem Component.isSpelled_parent : parent.IsSpelled where
  slash_not_mem := by decide
  nonempty := by decide
  not_current := by decide
  ofPiece_text := rfl

/-- A name of a component is spelled by itself. -/
theorem IsComponentName.isSpelled {name : String} (h : IsComponentName name) :
    (Component.normal name).IsSpelled where
  slash_not_mem := h.slash_not_mem
  nonempty := h.nonempty
  not_current := h.not_current
  ofPiece_text := by
    rw [Component.text, Component.ofPiece, if_neg h.not_current, if_neg h.not_parent]

theorem root_not_mem_body (parts : List (String × Bool)) : .root ∉ body parts := by
  intro h
  obtain ⟨piece, -, hpiece⟩ := List.mem_map.1 h
  unfold Component.ofPiece at hpiece
  split_ifs at hpiece

/-- A path is absolute if the root is among its components. -/
theorem isAbsolute_iff_root_mem {p : Path} : p.isAbsolute = true ↔ .root ∈ p.components := by
  rw [components_eq]
  cases p.isAbsolute <;> simp [root_not_mem_body]

/-- The components of an absolute path are the root and what its pieces stand for. -/
theorem components_of_isAbsolute {p : Path} (h : p.isAbsolute = true) :
    p.components = .root :: body p.pieces := by
  rw [components_eq, if_pos h]

/-- No component of a relative path is the root. -/
theorem root_not_mem_components {p : Path} (h : p.isAbsolute = false) : .root ∉ p.components :=
  fun hmem => by simp [isAbsolute_iff_root_mem.2 hmem] at h

/-- The path without any component is the empty one. -/
theorem text_eq_empty_iff {p : Path} : p.text = "" ↔ p.components = [] := by
  refine ⟨fun h => ?_, fun h => ?_⟩
  · obtain ⟨text⟩ := p
    subst h
    rfl
  by_contra hne
  cases habsolute : p.isAbsolute with
  | true => simp [components_of_isAbsolute habsolute] at h
  | false =>
    obtain ⟨first, rest, hfields, hfirst⟩ := fields_relative habsolute hne
    rw [components_eq, habsolute, pieces_relative habsolute hfields] at h
    simp [body, hfirst] at h

/-- Of paths with the same components both are empty or none is. -/
theorem text_eq_empty_of_components {p q : Path} (h : p.components = q.components) :
    p.text = "" ↔ q.text = "" := by
  rw [text_eq_empty_iff, text_eq_empty_iff, h]

/-- The names that a path goes through are names of components. -/
theorem isComponentName_of_mem {p : Path} {name : String} (h : .normal name ∈ p.components) :
    IsComponentName name := by
  have hbody : .normal name ∈ body p.pieces := by
    rw [components_eq] at h
    split at h
    · simpa using h
    · exact h
  obtain ⟨piece, hpiece, heq⟩ := List.mem_map.1 hbody
  obtain ⟨hmem, hflag⟩ := List.mem_filter.1 hpiece
  have hne : p.text ≠ "" := by
    intro hempty
    rw [(pieces_empty hempty).2, List.mem_singleton] at hmem
    simp [hmem] at hflag
  have hwell := wellPieced_pieces hne
  obtain ⟨hcurrent, hparent, rfl⟩ : piece.1 ≠ "." ∧ piece.1 ≠ ".." ∧ piece.1 = name := by
    unfold Component.ofPiece at heq
    split_ifs at heq with hcurrent hparent
    exact ⟨hcurrent, hparent, Component.normal.inj heq⟩
  refine ⟨?_, hcurrent, hparent, hwell.plain piece hmem⟩
  -- A piece that counts is not empty, wherever it stands.
  obtain ⟨start, rest, hsplit⟩ := List.append_of_mem hmem
  have hsuffix : WellPieced false (piece :: rest) :=
    hwell.of_suffix ⟨start, hsplit.symm⟩ hflag
  exact (hsuffix.first rfl piece (by simp)).1

/-! ## Spelling steps -/

/-- Steps spelled behind the root, or from where a relative path starts. -/
def spellSteps (absolute : Bool) (steps : List Component) : Path :=
  spell absolute (steps.map fun c => (c.text, true))

/-- Steps that were spelled are read back. -/
theorem components_spellSteps {absolute : Bool} {steps : List Component}
    (h : ∀ c ∈ steps, c.IsSpelled) :
    (spellSteps absolute steps).components = if absolute then .root :: steps else steps := by
  have hwell : WellPieced absolute (steps.map fun c => (c.text, true)) := by
    refine ⟨?_, ?_, ?_⟩
    · intro piece hpiece
      obtain ⟨c, hc, rfl⟩ := List.mem_map.1 hpiece
      exact (h c hc).slash_not_mem
    · have hall : ∀ piece ∈ steps.map fun c => (c.text, true),
          piece.2 = (piece.1 != "" && piece.1 != ".") := by
        intro piece hpiece
        obtain ⟨c, hc, rfl⟩ := List.mem_map.1 hpiece
        simp [(h c hc).nonempty, (h c hc).not_current]
      intro piece hpiece
      apply hall
      split at hpiece
      · exact hpiece
      · exact List.mem_of_mem_tail hpiece
    · rintro - piece hpiece
      obtain ⟨c, hc, rfl⟩ := List.mem_map.1 (List.mem_of_mem_head? hpiece)
      exact ⟨(h c hc).nonempty, rfl⟩
  have hbody : body (steps.map fun c => (c.text, true)) = steps := by
    have hread : ∀ c ∈ steps, Component.ofPiece c.text = id c := fun c hc => (h c hc).ofPiece_text
    rw [body, List.filter_eq_self.2 (by simp), List.map_map]
    exact (List.map_congr_left hread).trans (List.map_id steps)
  rw [spellSteps, components_spell hwell, hbody]

/-! ## What cleaning keeps -/

/-- The stacks of steps that cleaning works with, last step first. -/
inductive IsKept : Bool → List Component → Prop
  | root : IsKept true [.root]
  | up (n : Nat) : IsKept false (List.replicate n .parent)
  | down {absolute : Bool} {kept : List Component} {name : String}
      (hname : IsComponentName name) (hkept : IsKept absolute kept) :
      IsKept absolute (.normal name :: kept)

/-- Where only steps to the parent were kept, a further one is. -/
theorem cleanStep_replicate_parent (n : Nat) :
    cleanStep (List.replicate n .parent) .parent = List.replicate (n + 1) .parent := by
  have hlast : (List.replicate n Component.parent).getLast? ≠ some .root := fun h =>
    absurd (List.eq_of_mem_replicate (List.mem_of_getLast? h)) (by decide)
  cases n with
  | zero => rfl
  | succ n => exact if_neg hlast

namespace IsKept

variable {absolute : Bool} {kept : List Component}

/-- A step to the parent takes a name off the stack, if there is one.  Otherwise it has no
effect at the root and is kept at the start of a relative path. -/
theorem cleanStep_parent (h : IsKept absolute kept) : IsKept absolute (cleanStep kept .parent) := by
  cases h with
  | root => exact .root
  | up n => exact cleanStep_replicate_parent n ▸ .up (n + 1)
  | down _ hkept => exact hkept

/-- Cleaning goes on with such a stack, whatever further steps a relative path has. -/
theorem foldl_cleanStep (h : IsKept absolute kept) {steps : List Component}
    (hroot : .root ∉ steps) (hnames : ∀ name, .normal name ∈ steps → IsComponentName name) :
    IsKept absolute (steps.foldl cleanStep kept) := by
  induction steps generalizing kept with
  | nil => exact h
  | cons step rest ih =>
    rw [List.foldl_cons]
    refine ih ?_ (List.not_mem_of_not_mem_cons hroot) fun name hname =>
      hnames name (List.mem_cons_of_mem step hname)
    cases step with
    | root => exact absurd List.mem_cons_self hroot
    | current => exact h
    | parent => exact h.cleanStep_parent
    | normal name => exact .down (hnames name List.mem_cons_self) h

/-- A stack is made again from its own steps. -/
theorem foldl_reverse (h : IsKept absolute kept) : kept.reverse.foldl cleanStep [] = kept := by
  induction h with
  | root => rfl
  | up n =>
    induction n with
    | zero => rfl
    | succ n ih =>
      rw [List.reverse_replicate] at ih ⊢
      rw [List.replicate_succ', List.foldl_append, ih, ← List.replicate_succ']
      exact cleanStep_replicate_parent n
  | down _ _ ih => rw [List.reverse_cons, List.foldl_append, ih]; rfl

/-- In order, the steps are the root or steps to the parent, and then names. -/
theorem exists_names (h : IsKept absolute kept) : ∃ (n : Nat) (names : List String),
    (∀ name ∈ names, IsComponentName name) ∧ kept.reverse =
      (if absolute then [.root] else List.replicate n .parent) ++ names.map .normal := by
  induction h with
  | root => exact ⟨0, [], by simp, rfl⟩
  | up n => exact ⟨n, [], by simp, by simp⟩
  | @down _ _ name hname _ ih =>
    obtain ⟨n, names, hnames, heq⟩ := ih
    refine ⟨n, names ++ [name], ?_, ?_⟩
    · exact List.forall_mem_append.2 ⟨hnames, List.forall_mem_singleton.2 hname⟩
    · rw [List.reverse_cons, heq, List.append_assoc, List.map_append, List.map_singleton]

/-- The spelled stack has the steps on it as components. -/
theorem components_ofComponents (h : IsKept absolute kept) :
    (ofComponents kept.reverse).components = kept.reverse := by
  obtain ⟨n, names, hnames, heq⟩ := h.exists_names
  have hspelled : ∀ c ∈ names.map Component.normal, c.IsSpelled := by
    intro c hc
    obtain ⟨name, hname, rfl⟩ := List.mem_map.1 hc
    exact (hnames name hname).isSpelled
  cases absolute with
  | true =>
    have hspell : ofComponents (.root :: names.map .normal) =
        spellSteps true (names.map .normal) := by
      simp [ofComponents, spellSteps, spell, Function.comp_def]
    rw [heq]
    exact (congrArg components hspell).trans (components_spellSteps hspelled)
  | false =>
    have hsteps : ∀ c ∈ List.replicate n Component.parent ++ names.map .normal, c.IsSpelled := by
      intro c hc
      rcases List.mem_append.1 hc with hup | hdown
      · exact List.eq_of_mem_replicate hup ▸ Component.isSpelled_parent
      · exact hspelled c hdown
    have hspell : ofComponents (List.replicate n Component.parent ++ names.map .normal) =
        spellSteps false (List.replicate n Component.parent ++ names.map .normal) := by
      cases n <;> cases names <;>
        simp [ofComponents, spellSteps, spell, Function.comp_def, List.replicate_succ]
    rw [heq]
    exact (congrArg components hspell).trans (components_spellSteps hsteps)

end IsKept

/-- The steps that cleaning a path keeps, last one first. -/
def keptSteps (p : Path) : List Component :=
  p.components.foldl cleanStep []

/-- A cleaned path has the steps that are kept. -/
theorem clean_eq (p : Path) : p.clean = ofComponents p.keptSteps.reverse :=
  rfl

/-- Cleaning does not depend on how the components are spelled. -/
theorem clean_of_components {p q : Path} (h : p.components = q.components) :
    p.clean = q.clean := by
  rw [clean_eq, clean_eq, keptSteps, keptSteps, h]

/-- What cleaning a path keeps is a stack of names on the root or on steps to the parent. -/
theorem isKept_keptSteps (p : Path) : IsKept p.isAbsolute p.keptSteps := by
  have hnames : ∀ name, .normal name ∈ body p.pieces → IsComponentName name := by
    intro name hname
    apply isComponentName_of_mem (p := p)
    rw [components_eq]
    split
    · exact List.mem_cons_of_mem .root hname
    · exact hname
  unfold keptSteps
  rw [components_eq]
  cases habsolute : p.isAbsolute with
  | true => exact IsKept.root.foldl_cleanStep (root_not_mem_body _) hnames
  | false => exact (IsKept.up 0).foldl_cleanStep (root_not_mem_body _) hnames

/-- The components of a cleaned path are the steps that were kept. -/
theorem components_clean (p : Path) : p.clean.components = p.keptSteps.reverse :=
  p.isKept_keptSteps.components_ofComponents

/-- A cleaned path is absolute just when the path is. -/
theorem isAbsolute_clean (p : Path) : p.clean.isAbsolute = p.isAbsolute := by
  obtain ⟨n, names, -, heq⟩ := p.isKept_keptSteps.exists_names
  rw [Bool.eq_iff_iff, isAbsolute_iff_root_mem, components_clean, heq]
  cases p.isAbsolute <;> simp

/-- Cleaning a cleaned path keeps the same steps again. -/
theorem keptSteps_clean (p : Path) : p.clean.keptSteps = p.keptSteps := by
  rw [keptSteps, components_clean, p.isKept_keptSteps.foldl_reverse]

/-- Cleaning a second time changes nothing. -/
theorem clean_clean (p : Path) : p.clean.clean = p.clean := by
  rw [clean_eq, keptSteps_clean, clean_eq]

/-! ## Joined paths -/

/-- The further components of a joined path: those of the second one, without a dot at its
start. -/
theorem exists_components_join (p : Path) {q : Path} (hq : q.isAbsolute = false) :
    ∃ steps, (p.join q).components = p.components ++ steps ∧
      (q.components = steps ∨ q.components = .current :: steps) := by
  obtain ⟨before, hbefore, hchild⟩ := p.exists_child_text
  have hjoin : p.join q = ⟨before ++ q.text⟩ := hchild q.text hq
  rw [hjoin]
  rcases hbefore with ⟨rfl, hnone⟩ | ⟨s, rfl, hslash⟩
  · exact ⟨q.components, by rw [String.empty_append, hnone, List.nil_append], Or.inl rfl⟩
  refine ⟨body ((Text.fields '/' q.text).map flagged), by rw [components_append, hslash], ?_⟩
  by_cases hempty : q.text = ""
  · obtain ⟨text⟩ := q
    subst hempty
    exact Or.inl rfl
  obtain ⟨first, rest, hfields, hfirst⟩ := fields_relative hq hempty
  rw [components_eq, hq, pieces_relative hq hfields, hfields]
  by_cases hdot : first = "."
  · subst hdot
    exact Or.inr rfl
  · left
    simp [body, flagged, hfirst, hdot]

/-- A relative path behind another does not change where that starts. -/
theorem isAbsolute_join (p : Path) {q : Path} (hq : q.isAbsolute = false) :
    (p.join q).isAbsolute = p.isAbsolute := by
  obtain ⟨steps, hjoin, hsteps⟩ := p.exists_components_join hq
  have hroot : .root ∉ steps := by
    have hnot := root_not_mem_components hq
    rcases hsteps with heq | heq
    · exact heq ▸ hnot
    · exact List.not_mem_of_not_mem_cons (heq ▸ hnot)
  rw [Bool.eq_iff_iff, isAbsolute_iff_root_mem, isAbsolute_iff_root_mem, hjoin, List.mem_append,
    or_iff_left hroot]

/-- Cleaning a joined path goes on with what was kept of the first path. -/
theorem keptSteps_join (p : Path) {q : Path} (hq : q.isAbsolute = false) :
    (p.join q).keptSteps = q.components.foldl cleanStep p.keptSteps := by
  obtain ⟨steps, hjoin, hsteps⟩ := p.exists_components_join hq
  rw [keptSteps, hjoin, List.foldl_append]
  rcases hsteps with heq | heq
  · rw [heq, keptSteps]
  · rw [heq, List.foldl_cons]
    rfl

/-- Further steps count alike behind a path and behind the cleaned one. -/
theorem clean_join (p : Path) {q : Path} (hq : q.isAbsolute = false) :
    (p.join q).clean = (p.clean.join q).clean := by
  rw [clean_eq, clean_eq, keptSteps_join p hq, keptSteps_join p.clean hq, keptSteps_clean]

/-- Without a dot at the start of the second path, a joined path has the components of both. -/
theorem components_join (p : Path) {q : Path} (hq : q.isAbsolute = false)
    (hdot : .current ∉ q.components) : (p.join q).components = p.components ++ q.components := by
  obtain ⟨steps, hjoin, heq | heq⟩ := p.exists_components_join hq
  · rw [hjoin, heq]
  · exact absurd (heq ▸ List.mem_cons_self) hdot

/-! ## Paths over names -/

/-- Steps over names are all kept. -/
theorem foldl_cleanStep_names (names : List String) (kept : List Component) :
    (names.map .normal).foldl cleanStep kept = (names.map .normal).reverse ++ kept := by
  induction names generalizing kept with
  | nil => rfl
  | cons name rest ih =>
    rw [List.map_cons, List.foldl_cons, ih, List.reverse_cons, List.append_assoc]
    rfl

/-- Whether a path leads over names only. -/
def IsDownward (p : Path) : Prop :=
  ∃ names : List String, p.components = names.map .normal

namespace IsDownward

variable {q : Path}

/-- A path over names starts where one is. -/
theorem isAbsolute_eq_false (h : q.IsDownward) : q.isAbsolute = false := by
  obtain ⟨names, hnames⟩ := h
  rw [← Bool.not_eq_true, isAbsolute_iff_root_mem, hnames]
  simp

/-- Steps over names follow the components of the path before them. -/
theorem components_join (h : q.IsDownward) (p : Path) :
    (p.join q).components = p.components ++ q.components := by
  refine p.components_join h.isAbsolute_eq_false ?_
  obtain ⟨names, hnames⟩ := h
  simp [hnames]

/-- Steps over names are all kept. -/
theorem foldl_cleanStep (h : q.IsDownward) (kept : List Component) :
    q.components.foldl cleanStep kept = q.components.reverse ++ kept := by
  obtain ⟨names, hnames⟩ := h
  rw [hnames, foldl_cleanStep_names]

/-- Cleaning keeps a path over names. -/
theorem keptSteps_eq (h : q.IsDownward) : q.keptSteps = q.components.reverse := by
  rw [keptSteps, h.foldl_cleanStep, List.append_nil]

/-- Cleaning finds nothing to take out of such a path. -/
theorem components_clean (h : q.IsDownward) : q.clean.components = q.components := by
  rw [Path.components_clean, h.keptSteps_eq, List.reverse_reverse]

/-- A cleaned path over names is one. -/
protected theorem clean (h : q.IsDownward) : q.clean.IsDownward := by
  have hcomponents := h.components_clean
  obtain ⟨names, hnames⟩ := h
  exact ⟨names, hcomponents.trans hnames⟩

/-- Names behind a path are kept after what is kept of the path. -/
theorem keptSteps_join (h : q.IsDownward) (p : Path) :
    (p.join q).keptSteps = q.components.reverse ++ p.keptSteps := by
  rw [Path.keptSteps_join p h.isAbsolute_eq_false, h.foldl_cleanStep]

/-- Names behind a path are the last components of the cleaned path. -/
theorem components_clean_join (h : q.IsDownward) (p : Path) :
    (p.join q).clean.components = p.clean.components ++ q.components := by
  rw [Path.components_clean, Path.components_clean, h.keptSteps_join, List.reverse_append,
    List.reverse_reverse]

end IsDownward

/-- A cleaned path leads over names only unless it is absolute or starts with a step to the
parent. -/
theorem isDownward_clean_iff {p : Path} : p.clean.IsDownward ↔
    p.clean.isAbsolute = false ∧ p.clean.components.head? ≠ some .parent := by
  refine ⟨fun h => ⟨h.isAbsolute_eq_false, ?_⟩, ?_⟩
  · obtain ⟨names, hnames⟩ := h
    rw [hnames]
    cases names <;> simp
  · rintro ⟨hrelative, hhead⟩
    obtain ⟨n, names, -, hkept⟩ := p.isKept_keptSteps.exists_names
    rw [← components_clean, ← p.isAbsolute_clean, hrelative] at hkept
    cases n with
    | zero => exact ⟨names, hkept⟩
    | succ n => simp [hkept, List.replicate_succ] at hhead

/-- A name is a path of one component. -/
theorem components_name {name : String} (h : IsComponentName name) :
    (⟨name⟩ : Path).components = [.normal name] := by
  have hfields := Text.fields_of_not_mem h.slash_not_mem
  have hrelative := isAbsolute_eq_false_of_not_mem h.slash_not_mem
  rw [components_eq, hrelative, pieces_relative hrelative hfields]
  simp [body, h.nonempty, Component.ofPiece, h.not_current, h.not_parent]

/-- A name is a path over names. -/
theorem isDownward_name {name : String} (h : IsComponentName name) :
    (⟨name⟩ : Path).IsDownward :=
  ⟨[name], components_name h⟩

/-- A step to the parent takes the name before it back. -/
theorem clean_child_parent (p : Path) {name : String} (h : IsComponentName name) :
    ((p.child name).child "..").clean = p.clean := by
  have hup : (⟨".."⟩ : Path).components = [.parent] := rfl
  rw [clean_eq, child, keptSteps_join _ rfl, hup, child, (isDownward_name h).keptSteps_join,
    components_name h]
  rfl

/-! ## Steps that stay below where they start -/

/-- A step to the parent that was kept is never taken off the stack. -/
theorem parent_mem_foldl_cleanStep {kept steps : List Component} (h : .parent ∈ kept)
    (hroot : .root ∉ steps) : .parent ∈ steps.foldl cleanStep kept := by
  induction steps generalizing kept with
  | nil => exact h
  | cons step rest ih =>
    rw [List.foldl_cons]
    refine ih ?_ (List.not_mem_of_not_mem_cons hroot)
    cases step with
    | root => exact absurd List.mem_cons_self hroot
    | current => exact h
    | normal name => exact List.mem_cons_of_mem _ h
    | parent =>
      unfold cleanStep
      dsimp only
      split
      · next name others => simpa using h
      · split
        · exact h
        · exact List.mem_cons_self

/-- Steps that keep names only, from names, do so on top of whatever is below these. -/
theorem foldl_cleanStep_append {names : List String} {steps : List Component}
    (hroot : .root ∉ steps)
    (hparent : .parent ∉ steps.foldl cleanStep (names.map .normal)) (below : List Component) :
    steps.foldl cleanStep (names.map .normal ++ below) =
      steps.foldl cleanStep (names.map .normal) ++ below := by
  induction steps generalizing names with
  | nil => rfl
  | cons step rest ih =>
    have hrest : .root ∉ rest := List.not_mem_of_not_mem_cons hroot
    rw [List.foldl_cons] at hparent
    rw [List.foldl_cons, List.foldl_cons]
    cases step with
    | root => exact absurd List.mem_cons_self hroot
    | current => exact ih hrest hparent
    | normal name =>
      rw [cleanStep, ← List.map_cons] at hparent
      exact ih hrest hparent
    | parent =>
      cases names with
      | nil => exact absurd (parent_mem_foldl_cleanStep List.mem_cons_self hrest) hparent
      | cons name others => exact ih hrest hparent

/-! ## Paths from the root over names -/

/-- Whether a path leads from the root over names only. -/
def IsRooted (p : Path) : Prop :=
  ∃ names : List String, p.components = .root :: names.map .normal

/-- An absolute path has no dots among its components. -/
theorem current_not_mem_components {p : Path} (h : p.isAbsolute = true) :
    .current ∉ p.components := by
  obtain ⟨rest, rfl⟩ := text_of_isAbsolute h
  rw [components_of_isAbsolute h, (pieces_absolute rest).2]
  intro hmem
  have hbody : Component.current ∈ body ((Text.fields '/' rest).map flagged) := by
    simpa using hmem
  obtain ⟨piece, hpiece, heq⟩ := List.mem_map.1 hbody
  obtain ⟨hfield, hflag⟩ := List.mem_filter.1 hpiece
  obtain ⟨field, -, rfl⟩ := List.mem_map.1 hfield
  unfold Component.ofPiece at heq
  split_ifs at heq with hdot
  simp only [flagged] at hdot hflag
  simp [hdot] at hflag

/-- A path leads from the root over names only if it is absolute and without steps to a
parent. -/
theorem isRooted_iff {p : Path} :
    p.IsRooted ↔ p.isAbsolute = true ∧ .parent ∉ p.components := by
  constructor
  · rintro ⟨names, hnames⟩
    rw [isAbsolute_iff_root_mem, hnames]
    simp
  · rintro ⟨habsolute, hparent⟩
    have hcurrent := current_not_mem_components habsolute
    have hroot := root_not_mem_body p.pieces
    rw [components_of_isAbsolute habsolute] at hparent hcurrent
    have hnames : ∀ c ∈ body p.pieces, c ∈ Set.range Component.normal := by
      intro c hc
      cases c with
      | root => exact absurd hc hroot
      | current => exact absurd (List.mem_cons_of_mem _ hc) hcurrent
      | parent => exact absurd (List.mem_cons_of_mem _ hc) hparent
      | normal name => exact ⟨name, rfl⟩
    have hbody : body p.pieces ∈ Set.range (List.map Component.normal) := by
      rw [Set.range_list_map]
      exact hnames
    obtain ⟨names, heq⟩ := hbody
    exact ⟨names, by rw [components_of_isAbsolute habsolute, heq]⟩

namespace IsRooted

variable {p q : Path}

theorem isAbsolute_eq_true (h : p.IsRooted) : p.isAbsolute = true :=
  (isRooted_iff.1 h).1

/-- Cleaning finds nothing to take out of such a path. -/
theorem keptSteps_eq (h : p.IsRooted) : p.keptSteps = p.components.reverse := by
  obtain ⟨names, hnames⟩ := h
  rw [keptSteps, hnames, List.foldl_cons, foldl_cleanStep_names, List.reverse_cons]
  rfl

/-- A path from the root over names has the same components when it is cleaned. -/
theorem components_clean (h : p.IsRooted) : p.clean.components = p.components := by
  rw [Path.components_clean, h.keptSteps_eq, List.reverse_reverse]

/-- What such a path begins with is such a path. -/
theorem of_isPrefix (h : p.IsRooted) (hq : q.components <+: p.components)
    (hne : q.components ≠ []) : q.IsRooted := by
  obtain ⟨names, hnames⟩ := h
  rw [hnames] at hq
  obtain ⟨first, rest, heq⟩ := List.exists_cons_of_ne_nil hne
  rw [heq, List.cons_prefix_cons] at hq
  obtain ⟨rfl, hrest⟩ := hq
  obtain ⟨front, -, rfl⟩ := List.prefix_map_iff.1 hrest
  exact ⟨front, heq⟩

/-- What is left of such a path behind some of its components leads over names only. -/
theorem isDownward_of_append (h : p.IsRooted) {front : List Component} (hne : front ≠ [])
    (happend : front ++ q.components = p.components) : q.IsDownward := by
  obtain ⟨names, hnames⟩ := h
  obtain ⟨first, rest, rfl⟩ := List.exists_cons_of_ne_nil hne
  rw [hnames, List.cons_append] at happend
  obtain ⟨back, -, heq⟩ := List.suffix_map_iff.1 ⟨rest, (List.cons.inj happend).2⟩
  exact ⟨back, heq⟩

end IsRooted

/-- Every absolute path leads from the root over names when it is cleaned. -/
theorem isRooted_clean {p : Path} (h : p.isAbsolute = true) : p.clean.IsRooted := by
  obtain ⟨n, names, -, hkept⟩ := p.isKept_keptSteps.exists_names
  rw [← components_clean, h] at hkept
  exact ⟨names, hkept⟩

/-- Slashes at the end of a relative path do not count. -/
theorem components_dropEndWhile_slash {p : Path} (h : p.isAbsolute = false) :
    (⟨String.ofList (Text.dropEndWhile (· == '/') p.text.toList)⟩ : Path).components =
      p.components := by
  have hend : ∀ cs : List Char, (⟨String.ofList cs⟩ : Path).isAbsolute = false →
      (⟨String.ofList (Text.dropEndWhile (· == '/') cs)⟩ : Path).components =
        (⟨String.ofList cs⟩ : Path).components := by
    intro cs
    induction cs using List.reverseRecOn with
    | nil => exact fun _ => rfl
    | append_singleton front c ih =>
      intro hrelative
      by_cases hc : c = '/'
      · subst hc
        have hne : front ≠ [] := by
          rintro rfl
          simp [isAbsolute] at hrelative
        have hfront : (⟨String.ofList front⟩ : Path).isAbsolute = false := by
          cases front with
          | nil => exact absurd rfl hne
          | cons first rest => simpa [isAbsolute] using hrelative
        have hslash : String.ofList (front ++ ['/']) = String.ofList front ++ "/" := by
          simp
        rw [hslash, components_slash (by simpa using hne), ← ih hfront]
        simp [Text.dropEndWhile]
      · simp [Text.dropEndWhile, hc]
  have hself := hend p.text.toList
  rw [String.ofList_toList] at hself
  exact hself h

/-! ## Normal form -/

/-- Cleaned paths are in a normal form.  They have no dots, parent steps stand at the start of
relative paths only, and cleaning changes them no more.  Further steps of a path count alike
behind the path and behind the cleaned one, where a name stays until a parent step takes it
back. -/
theorem clean_isNormalizer (p : Path) :
    p.clean.clean = p.clean ∧ .current ∉ p.clean.components ∧
      p.clean.isAbsolute = p.isAbsolute ∧
      (p.isAbsolute = true → .parent ∉ p.clean.components) ∧
      (p.isAbsolute = false → ∃ (n : Nat) (names : List String),
        p.clean.components = List.replicate n .parent ++ names.map .normal) ∧
      (∀ q : Path, q.isAbsolute = false → (p.join q).clean = (p.clean.join q).clean) ∧
      ∀ name, IsComponentName name →
        (p.child name).clean.components = p.clean.components ++ [.normal name] ∧
          ((p.child name).child "..").clean = p.clean := by
  obtain ⟨n, names, -, hkept⟩ := p.isKept_keptSteps.exists_names
  rw [← components_clean] at hkept
  refine ⟨p.clean_clean, ?_, p.isAbsolute_clean, ?_, ?_, fun q => p.clean_join,
    fun name hname => ⟨?_, p.clean_child_parent hname⟩⟩
  · rw [hkept]
    cases p.isAbsolute <;> simp
  · intro habsolute
    simp [hkept, habsolute]
  · intro hrelative
    exact ⟨n, names, by simp [hkept, hrelative]⟩
  · rw [child, (isDownward_name hname).components_clean_join, components_name hname]

/-- An absolute path loses its parent steps at the root, a relative one keeps those that it
starts with.  The steps of the latter behind the former, and a name that is taken back, count as
behind the cleaned path. -/
theorem clean_samples :
    let root : Path := ⟨"/a/./b/../../../c"⟩
    let below : Path := ⟨"../a/../../b/."⟩
    root.clean = ⟨"/c"⟩ ∧ .parent ∉ root.clean.components ∧
      below.clean = ⟨"../../b"⟩ ∧
      (∃ (n : Nat) (names : List String),
        below.clean.components = List.replicate n .parent ++ names.map .normal) ∧
      (root.join below).clean = ⟨"/b"⟩ ∧ (root.join below).clean = (root.clean.join below).clean ∧
      (root.child "d").clean.components = root.clean.components ++ [.normal "d"] ∧
      ((root.child "d").child "..").clean = root.clean := by
  intro root below
  obtain ⟨-, -, -, habsolute, -, hjoin, hname⟩ := clean_isNormalizer root
  obtain ⟨-, -, -, -, hrelative, -, -⟩ := clean_isNormalizer below
  obtain ⟨hchild, hback⟩ := hname "d" ⟨by decide, by decide, by decide, by decide⟩
  have hroot : root.isAbsolute = true := by decide
  have hbelow : below.isAbsolute = false := by decide
  exact ⟨by decide +kernel, habsolute hroot, by decide +kernel, hrelative hbelow,
    by decide +kernel, hjoin below hbelow, hchild, hback⟩

end Path
end EbuildGraph
