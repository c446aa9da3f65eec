import EbuildGraph.FileTree
import EbuildGraph.Proofs.Path.Components
import EbuildGraph.Proofs.Success

/-!
# Following names in a tree of files

Names are followed one after the other: what a list of names leads to is what its last
part leads to from where its first part led, with the links that are left.  A path below a
directory therefore leads through the entries of the directories on its way.

Main results:

- Theorem {lit}`walk_append`: following names in two parts.
- Theorem {lit}`exists_entry_of_walk`: a name that was followed is an entry of a directory.
- Theorems {lit}`trailOf_eq_ok_iff` and {lit}`find_eq_ok_iff`: what it takes for a path to lead
  anywhere.
- Theorem {lit}`exists_child_names`: the names that a path below a directory consists of.
-/

namespace EbuildGraph
namespace FileTree

variable {tree : FileTree} {trail : Trail}

/-! ## One name -/

/-- Where a link leads, with the names that follow it. -/
def followLink (tree : FileTree) (links : Nat) (trail : Trail) (names : List String) :
    Except FileFault Trail :=
  match links with
  | 0 => .error .tooManyLinks
  | links + 1 => walk tree .existing links trail names

theorem walk_nil (links : Nat) : walk tree .existing links trail [] = .ok trail := by
  cases links <;> rfl

/-- The step of a walk over one name. -/
theorem walk_cons (links : Nat) (name : String) (rest : List String) :
    walk tree .existing links trail (name :: rest) =
      match tree.nodeAt trail with
      | .directory entries =>
        if name = "" || name = "." then walk tree .existing links trail rest
        else if name = ".." then walk tree .existing links trail.tail rest
        else if maxNameBytes < name.utf8ByteSize then .error .nameTooLong
        else
          match entries.lookup name with
          | none => .error .notFound
          | some (.link target) =>
            tree.followLink links (if target.isAbsolute then [] else trail)
              (namesOf target ++ rest)
          | some node => walk tree .existing links ((name, node) :: trail) rest
      | _ => .error .notDirectory := by
  cases hnode : tree.nodeAt trail with
  | file contents => cases links <;> simp [walk, walkWith, hnode]
  | link target => cases links <;> simp [walk, walkWith, hnode]
  | directory entries =>
    cases hentry : entries.lookup name with
    | none => cases links <;> simp [walk, walkWith, hnode, hentry]
    | some node =>
      cases node <;> cases links <;> simp [walk, walkWith, hnode, hentry, followLink]

/-! ## Several names -/

/-- Whether following further names goes on from one place, or fails whatever they are. -/
def GoesOn (tree : FileTree) (follow : List String → Except FileFault Trail) : Prop :=
  (∃ fault, ∀ names, follow names = .error fault) ∨
    ∃ links trail, ∀ names, follow names = walk tree .existing links trail names

/-- What goes on like something that goes on from one place does so too. -/
theorem GoesOn.congr {f g : List String → Except FileFault Trail} (hg : GoesOn tree g)
    (h : ∀ names, f names = g names) : GoesOn tree f := by
  rwa [show f = g from funext h]

/-- What fails whatever the names are goes on nowhere. -/
theorem goesOn_error {f : List String → Except FileFault Trail} {fault : FileFault}
    (h : ∀ names, f names = .error fault) : GoesOn tree f :=
  Or.inl ⟨fault, h⟩

/-- Following names goes on when following links does. -/
theorem goesOn_walk {links : Nat}
    (hlink : ∀ trail names, GoesOn tree fun rest => tree.followLink links trail (names ++ rest))
    (trail : Trail) (names : List String) :
    GoesOn tree fun rest => walk tree .existing links trail (names ++ rest) := by
  induction names generalizing trail with
  | nil => exact Or.inr ⟨links, trail, fun _ => rfl⟩
  | cons name names ih =>
    have hstep := fun rest => @walk_cons tree trail links name (names ++ rest)
    cases hnode : tree.nodeAt trail with
    | file contents =>
      simp only [hnode] at hstep
      exact goesOn_error hstep
    | link target =>
      simp only [hnode] at hstep
      exact goesOn_error hstep
    | directory entries =>
      simp only [hnode] at hstep
      by_cases hhere : (name = "" || name = ".") = true
      · simp only [hhere, if_true] at hstep
        exact (ih trail).congr hstep
      by_cases hup : name = ".."
      · refine (ih trail.tail).congr fun rest => ?_
        rw [List.cons_append, hstep, if_neg hhere, if_pos hup]
      by_cases hlong : maxNameBytes < name.utf8ByteSize
      · simp only [hhere, hup, hlong, if_true, if_false] at hstep
        exact goesOn_error hstep
      cases hentry : entries.lookup name with
      | none =>
        simp only [hhere, hup, hlong, hentry, if_false] at hstep
        exact goesOn_error hstep
      | some node =>
        simp only [hhere, hup, hlong, hentry, if_false] at hstep
        cases node with
        | file contents => exact (ih _).congr hstep
        | directory inner => exact (ih _).congr hstep
        | link target =>
          have htarget := hlink (if target.isAbsolute then [] else trail) (namesOf target ++ names)
          refine htarget.congr fun rest => ?_
          rw [List.append_assoc]
          exact hstep rest

/-- What a list of names leads to is what its last part leads to from where its first part
led. -/
theorem walk_append (links : Nat) (trail : Trail) (names : List String) :
    GoesOn tree fun rest => walk tree .existing links trail (names ++ rest) := by
  induction links generalizing trail names with
  | zero => exact goesOn_walk (fun _ _ => goesOn_error fun _ => rfl) trail names
  | succ links ih => exact goesOn_walk (fun trail names => ih trail names) trail names

/-- What is found under a name stands in the list of names. -/
theorem mem_map_fst_of_lookup {name : String} {entries : List (String × Node)} {node : Node}
    (h : entries.lookup name = some node) : name ∈ entries.map Prod.fst := by
  obtain ⟨before, after, rfl, _⟩ := List.lookup_eq_some_iff.1 h
  simp

/-- A name that was followed is an entry of the directory that the names before it led to. -/
theorem exists_entry_of_walk {links : Nat} {names rest : List String} {name : String}
    {found : Trail} (hname : name ≠ "" ∧ name ≠ "." ∧ name ≠ "..")
    (h : walk tree .existing links trail (names ++ name :: rest) = .ok found) :
    ∃ reached entries, walk tree .existing links trail names = .ok reached ∧
      walk tree .existing links trail (names ++ ["."]) = .ok reached ∧
      tree.nodeAt reached = .directory entries ∧ name ∈ entries.map Prod.fst := by
  obtain ⟨fault, hfault⟩ | ⟨left, reached, hgoes⟩ := @walk_append tree links trail names
  · exact absurd ((hfault (name :: rest)).symm.trans h) (by simp)
  have hhere : walk tree .existing links trail (names ++ []) = .ok reached :=
    (hgoes []).trans (walk_nil left)
  have hstep := (hgoes (name :: rest)).symm.trans h
  rw [List.append_nil] at hhere
  rw [walk_cons] at hstep
  split at hstep
  · next entries hnode =>
    refine ⟨reached, entries, hhere, ?_, hnode, ?_⟩
    · refine (hgoes ["."]).trans ?_
      rw [walk_cons, hnode]
      exact walk_nil left
    · rw [if_neg (by simp [hname.1, hname.2.1]), if_neg hname.2.2] at hstep
      split at hstep
      · cases hstep
      split at hstep
      · cases hstep
      · next target htarget => exact mem_map_fst_of_lookup htarget
      · next node hentry => exact mem_map_fst_of_lookup hentry
  · cases hstep

/-! ## Paths -/

/-- The names that a path goes over from the root. -/
def namesFromRoot (tree : FileTree) (p : Path) : List String :=
  if p.isAbsolute then namesOf p else namesOf tree.workingDirectory ++ namesOf p

/-- Whether a text can be a path: it is not empty, has no zero character and is not too
long. -/
structure IsPathText (s : String) : Prop where
  nonempty : s ≠ ""
  zero : Char.ofNat 0 ∉ s.toList
  size : s.utf8ByteSize ≤ maxPathBytes

/-- A shorter end in place of another one makes a path as well. -/
theorem IsPathText.replace_end {s t u : String} (h : IsPathText (s ++ t)) (hne : u ≠ "")
    (hzero : Char.ofNat 0 ∉ u.toList) (hsize : u.utf8ByteSize ≤ t.utf8ByteSize) :
    IsPathText (s ++ u) where
  nonempty := by simp [hne]
  zero := by
    have hfront := h.zero
    rw [String.toList_append, List.mem_append] at hfront ⊢
    exact not_or.2 ⟨fun hmem => hfront (Or.inl hmem), hzero⟩
  size := by
    have hlong := h.size
    rw [String.utf8ByteSize_append] at hlong ⊢
    omega

/-- Where a path leads. -/
theorem trailOf_eq_ok_iff {last : LastName} {p : Path} {found : Trail} :
    tree.trailOf last p = .ok found ↔
      IsPathText p.text ∧ walk tree last maxLinks [] (tree.namesFromRoot p) = .ok found := by
  unfold trailOf
  constructor
  · intro h
    split at h
    · cases h
    next hzero =>
    split at h
    · cases h
    next hempty =>
    split at h
    · cases h
    next hsize => exact ⟨⟨hempty, by simpa using hzero, by omega⟩, h⟩
  · rintro ⟨⟨hempty, hzero, hsize⟩, h⟩
    rw [if_neg (by simpa using hzero), if_neg hempty, if_neg (by omega)]
    exact h

/-- A path that leads to a node. -/
theorem find_eq_ok_iff {p : Path} {node : Node} :
    tree.find p = .ok node ↔ IsPathText p.text ∧ ∃ found,
      walk tree .existing maxLinks [] (tree.namesFromRoot p) = .ok found ∧
        tree.nodeAt found = node := by
  simp [find, map_eq_ok_iff, trailOf_eq_ok_iff, and_assoc]

/-- The entries of a directory can be listed just when the directory is found. -/
theorem listDirectory_eq_ok_iff {p : Path} {entries : List (String × Node)} :
    tree.listDirectory p = .ok entries ↔ tree.find p = .ok (.directory entries) := by
  unfold listDirectory
  cases tree.find p with
  | error fault => simp
  | ok node => cases node <;> simp

/-- The names of a child follow those of its directory. -/
theorem exists_child_names (tree : FileTree) (p : Path) :
    ∃ before base, ∀ name, (⟨name⟩ : Path).isAbsolute = false →
      (p.child name).text = before ++ name ∧
        tree.namesFromRoot (p.child name) = base ++ Text.fields '/' name := by
  obtain ⟨before, hbefore, hchild⟩ := p.exists_child_text
  rcases hbefore with ⟨rfl, _⟩ | ⟨s, rfl, _⟩
  · refine ⟨"", namesOf tree.workingDirectory, fun name hrelative => ?_⟩
    rw [hchild name hrelative, String.empty_append, namesFromRoot, hrelative]
    exact ⟨rfl, rfl⟩
  · have habsolute : ∀ name, (⟨s ++ "/" ++ name⟩ : Path).isAbsolute =
        (⟨s ++ "/"⟩ : Path).isAbsolute := by
      intro name
      cases hchars : s.toList <;> simp [Path.isAbsolute, hchars]
    have hfields : ∀ name, namesOf ⟨s ++ "/" ++ name⟩ =
        Text.fields '/' s ++ Text.fields '/' name :=
      fun name => Text.fields_append s name
    refine ⟨s ++ "/", (if (⟨s ++ "/"⟩ : Path).isAbsolute then [] else
      namesOf tree.workingDirectory) ++ Text.fields '/' s, fun name hrelative => ?_⟩
    rw [hchild name hrelative, namesFromRoot, habsolute, hfields]
    refine ⟨rfl, ?_⟩
    split
    · rfl
    · rw [List.append_assoc]

end FileTree
end EbuildGraph
