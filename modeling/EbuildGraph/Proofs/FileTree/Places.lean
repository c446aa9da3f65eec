import EbuildGraph.Proofs.FileTree

/-!
# Places in a tree of files

A walk over names goes from directory to directory, so it leaves a trail: each node on it is an
entry of the directory before.  The names of a trail are the place of its end, with all links
and steps to a parent carried out.

Main definitions:

- {lit}`Node.CanHold`: whether a file can be put at a place below a node.
- {lit}`FileTree.Follows`: what it takes to follow names, one constructor for each kind of name.
- {lit}`FileTree.IsTrail`, {lit}`FileTree.placeOf`: trails and the places at their ends.

Main results:

- Theorems {lit}`follows_of_walk` and {lit}`Follows.walk`: what a walk goes through.
- Theorem {lit}`Follows.isTrail`: names that are followed leave a trail.
- Theorem {lit}`Follows.canHold`: a file can be written where names lead to no directory.
-/

namespace EbuildGraph

/-! ## Places below a node -/

namespace Node

/-- Whether a file can be put at a place below a node: there are directories on the way, and a
file or nothing at its end. -/
def CanHold : List String → Option Node → Prop
  | [], none => True
  | [], some (.file _) => True
  | name :: rest, some (.directory entries) => CanHold rest (entries.lookup name)
  | _, _ => False

@[simp]
theorem canHold_nil_none : CanHold [] none :=
  trivial

@[simp]
theorem canHold_nil_file (contents : Contents) : CanHold [] (some (.file contents)) :=
  trivial

@[simp]
theorem not_canHold_nil_directory (entries : List (String × Node)) :
    ¬ CanHold [] (some (.directory entries)) := by
  simp [CanHold]

@[simp]
theorem canHold_cons_directory (name : String) (rest : List String)
    (entries : List (String × Node)) :
    CanHold (name :: rest) (some (.directory entries)) ↔ CanHold rest (entries.lookup name) :=
  Iff.rfl

@[simp]
theorem not_canHold_link (place : List String) (target : Path) :
    ¬ CanHold place (some (.link target)) := by
  cases place <;> simp [CanHold]

@[simp]
theorem not_canHold_cons_file (name : String) (rest : List String) (contents : Contents) :
    ¬ CanHold (name :: rest) (some (.file contents)) := by
  simp [CanHold]

end Node

namespace FileTree

open Node

/-! ## Following names -/

/-- Whether a name is looked up in a directory. -/
def IsEntryName (name : String) : Prop :=
  name ≠ "" ∧ name ≠ "." ∧ name ≠ ".." ∧ ¬ maxNameBytes < name.utf8ByteSize

/-- What it takes to follow names from a trail through at most the given number of links. -/
inductive Follows (tree : FileTree) (last : LastName) : Nat → Trail → List String → Trail → Prop
  | done {links trail} : Follows tree last links trail [] trail
  | stay {links trail name rest found entries} (hdir : tree.nodeAt trail = .directory entries)
      (hname : name = "" ∨ name = ".") (hrest : Follows tree last links trail rest found) :
      Follows tree last links trail (name :: rest) found
  | up {links trail rest found entries} (hdir : tree.nodeAt trail = .directory entries)
      (hrest : Follows tree last links trail.tail rest found) :
      Follows tree last links trail (".." :: rest) found
  | enter {links trail name rest found entries node}
      (hdir : tree.nodeAt trail = .directory entries) (hname : IsEntryName name)
      (hentry : entries.lookup name = some node) (hlink : ∀ target, node ≠ .link target)
      (hrest : Follows tree last links ((name, node) :: trail) rest found) :
      Follows tree last links trail (name :: rest) found
  | link {links trail name rest found entries target}
      (hdir : tree.nodeAt trail = .directory entries) (hname : IsEntryName name)
      (hentry : entries.lookup name = some (.link target))
      (hrest : Follows tree last links (if target.isAbsolute then [] else trail)
        (namesOf target ++ rest) found) :
      Follows tree last (links + 1) trail (name :: rest) found
  | create {links trail name entries} (hdir : tree.nodeAt trail = .directory entries)
      (hname : IsEntryName name) (hentry : entries.lookup name = none)
      (hlast : last = .creatable) :
      Follows tree last links trail [name] ((name, .file (.text "")) :: trail)

variable {tree : FileTree} {last : LastName} {links : Nat} {trail found : Trail}
  {names : List String}

/-- The steps of a walk over names that do not lead to a link as the result. -/
theorem follows_of_walkWith {follow : Trail → List String → Except FileFault Trail}
    (hlast : last ≠ .itself)
    (hfollow : ∀ target trail rest found,
      follow (if target.isAbsolute then [] else trail) (namesOf target ++ rest) = .ok found →
        ∃ left, links = left + 1 ∧ Follows tree last left
          (if target.isAbsolute then [] else trail) (namesOf target ++ rest) found)
    (h : walkWith follow tree last trail names = .ok found) :
    Follows tree last links trail names found := by
  induction names generalizing trail with
  | nil =>
    cases h
    exact .done
  | cons name rest ih =>
    rw [walkWith] at h
    split at h
    next entries hdir =>
      split at h
      next hname => exact .stay hdir (by simpa using hname) (ih h)
      next hname =>
      have hhere : name ≠ "" ∧ name ≠ "." := by simpa using hname
      split at h
      next hup =>
        subst hup
        exact .up hdir (ih h)
      next hup =>
      split at h
      next => cases h
      next =>
      split at h
      next => cases h
      next hlong =>
      have hentryName : IsEntryName name := ⟨hhere.1, hhere.2, hup, hlong⟩
      split at h
      next hentry =>
        split at h
        next hnew =>
          cases h
          obtain ⟨rfl, hcreatable⟩ : rest = [] ∧ last = .creatable := by simpa using hnew
          exact .create hdir hentryName hentry hcreatable
        next => cases h
      next target hentry =>
        rw [if_neg (by simp [hlast])] at h
        obtain ⟨left, rfl, hrest⟩ := hfollow target trail rest found h
        exact .link hdir hentryName hentry hrest
      next node hlink hentry =>
        exact .enter hdir hentryName hentry hlink (ih h)
    next => cases h

theorem follows_of_walk (hlast : last ≠ .itself)
    (h : walk tree last links trail names = .ok found) :
    Follows tree last links trail names found := by
  induction links generalizing trail names found with
  | zero => exact follows_of_walkWith hlast (by simp) h
  | succ links ih =>
    exact follows_of_walkWith hlast (fun _ _ _ _ hrest => ⟨links, rfl, ih hrest⟩) h

/-- Names that must exist are followed by a walk. -/
theorem Follows.walk (h : Follows tree .existing links trail names found) :
    FileTree.walk tree .existing links trail names = .ok found := by
  induction h with
  | done => exact walk_nil _
  | stay hdir hname hrest ih => rw [walk_cons, hdir]; simp [hname, ih]
  | up hdir hrest ih => rw [walk_cons, hdir]; simp [ih]
  | @enter links trail name rest found entries node hdir hname hentry hlink hrest ih =>
    obtain ⟨hempty, hdot, hup, hlong⟩ := hname
    rw [walk_cons, hdir]
    cases node with
    | link target => exact absurd rfl (hlink target)
    | file contents => simp [hempty, hdot, hup, hlong, hentry, ih]
    | directory inner => simp [hempty, hdot, hup, hlong, hentry, ih]
  | link hdir hname hentry hrest ih =>
    obtain ⟨hempty, hdot, hup, hlong⟩ := hname
    rw [walk_cons, hdir]
    simp [hempty, hdot, hup, hlong, hentry, followLink, ih]
  | create hdir hname hentry hlast => cases hlast

/-! ## Places of trails -/

/-- The names that lead from the root to the end of a trail. -/
def placeOf (trail : Trail) : List String :=
  (trail.map Prod.fst).reverse

@[simp]
theorem placeOf_nil : placeOf [] = [] :=
  rfl

@[simp]
theorem placeOf_cons (name : String) (node : Node) (trail : Trail) :
    placeOf ((name, node) :: trail) = placeOf trail ++ [name] := by
  simp [placeOf]

/-- Whether each node of a trail is an entry of the directory before it. -/
def IsTrail (tree : FileTree) : Trail → Prop
  | [] => True
  | (name, node) :: rest => IsTrail tree rest ∧ ∃ entries,
      tree.nodeAt rest = .directory entries ∧ entries.lookup name = some node

/-- A trail without its last node is a trail. -/
theorem IsTrail.tail (h : IsTrail tree trail) : IsTrail tree trail.tail := by
  cases trail with
  | nil => trivial
  | cons entry rest => exact h.1

/-- A place below the end of a trail, seen from the root. -/
theorem IsTrail.canHold_iff (h : IsTrail tree trail) (place : List String) :
    CanHold (placeOf trail ++ place) (some tree.root) ↔
      CanHold place (some (tree.nodeAt trail)) := by
  induction trail generalizing place with
  | nil => rfl
  | cons entry rest ih =>
    obtain ⟨name, node⟩ := entry
    obtain ⟨hrest, entries, hdir, hentry⟩ := h
    rw [placeOf_cons, List.append_assoc, ih hrest, hdir]
    simp [hentry, nodeAt]

/-- Following names leads along a trail, but for a file that is to be made. -/
theorem Follows.isTrail (h : Follows tree last links trail names found)
    (htrail : IsTrail tree trail) : IsTrail tree found ∨ last = .creatable ∧
      ∃ name rest entries, found = (name, .file (.text "")) :: rest ∧ IsTrail tree rest ∧
        tree.nodeAt rest = .directory entries ∧ entries.lookup name = none := by
  induction h with
  | done => exact Or.inl htrail
  | stay _ _ _ ih => exact ih htrail
  | up _ _ ih => exact ih htrail.tail
  | enter hdir _ hentry _ _ ih => exact ih ⟨htrail, _, hdir, hentry⟩
  | @link _ _ _ _ _ _ target _ _ _ _ ih =>
    apply ih
    split
    · trivial
    · exact htrail
  | create hdir _ hentry hlast => exact Or.inr ⟨hlast, _, _, _, rfl, htrail, hdir, hentry⟩

/-- Names that are followed do not lead to a link. -/
theorem Follows.nodeAt_ne_link (h : Follows tree last links trail names found)
    (htrail : IsTrail tree trail) (hroot : ∀ target, tree.root ≠ .link target)
    (hstart : ∀ target, tree.nodeAt trail ≠ .link target) (target : Path) :
    tree.nodeAt found ≠ .link target := by
  induction h with
  | done => exact hstart target
  | stay _ _ _ ih => exact ih htrail hstart
  | @up _ trail _ _ _ _ _ ih =>
    refine ih htrail.tail ?_
    rcases trail with _ | ⟨entry, rest⟩
    · exact hroot
    · obtain ⟨-, entries, hdir, -⟩ := htrail
      simp [hdir]
  | enter hdir _ hentry hlink _ ih => exact ih ⟨htrail, _, hdir, hentry⟩ hlink
  | link _ _ _ _ ih =>
    apply ih
    · split
      · trivial
      · exact htrail
    · split
      · exact hroot
      · exact hstart
  | create => simp [nodeAt]

/-- Names that lead anywhere start in a root directory. -/
theorem Follows.root_eq_directory (h : Follows tree last links [] names found)
    (hnames : names ≠ []) : ∃ entries, tree.root = .directory entries := by
  cases h with
  | done => exact absurd rfl hnames
  | stay hdir => exact ⟨_, hdir⟩
  | up hdir => exact ⟨_, hdir⟩
  | enter hdir => exact ⟨_, hdir⟩
  | link hdir => exact ⟨_, hdir⟩
  | create hdir => exact ⟨_, hdir⟩

/-- A place that names lead to can hold a file unless there is a directory. -/
theorem Follows.canHold (h : Follows tree last links [] names found) (hnames : names ≠ [])
    (hfile : (tree.nodeAt found).isDirectory = false) :
    CanHold (placeOf found) (some tree.root) := by
  obtain ⟨entries, hroot⟩ := h.root_eq_directory hnames
  rcases h.isTrail trivial with htrail | ⟨-, name, rest, entries, rfl, htrail, hdir, hentry⟩
  · rw [← List.append_nil (placeOf found), htrail.canHold_iff]
    cases hnode : tree.nodeAt found with
    | file contents => simp
    | directory entries => simp [hnode, Node.isDirectory] at hfile
    | link target =>
      have hne := h.nodeAt_ne_link trivial (by simp [hroot]) (by simp [nodeAt, hroot]) target
      exact absurd hnode hne
  · rw [placeOf_cons, htrail.canHold_iff, hdir]
    simp [hentry]

end FileTree
end EbuildGraph
