import EbuildGraph.Proofs.FileTree.Writing
import EbuildGraph.Proofs.Sorting

/-!
# Listing directories after adding a file

A file that is put into a directory under a new name is one more entry of it.  Other directories
keep their entries: those that lie on the way to the file are renewed, but are directories as
before.  Whoever reads a directory for anything but its directories therefore finds at most the
new file in addition.

Main results:

- Theorem {lit}`IsTrail.eq_of_placeOf_eq`: there is one trail to a place.
- Theorem {lit}`listDirectory_place`: what a directory lists once a file was added somewhere.
-/

namespace EbuildGraph

/-! ## Entries of a directory -/

namespace Node

/-- An entry of a new name is put behind those that are there. -/
theorem setEntry_of_lookup_eq_none {name : String} {entries : List (String × Node)} (node : Node)
    (h : entries.lookup name = none) : setEntry name node entries = entries ++ [(name, node)] := by
  induction entries with
  | nil => rfl
  | cons entry rest ih =>
    rw [NameMap.lookup_cons_eq] at h
    split at h
    · cases h
    next hne =>
    rw [setEntry, if_neg (Ne.symm hne), ih h, List.cons_append]

/-- An entry that is written anew gives what it gave, if the old and the new node do. -/
theorem filterMap_setEntry {β : Type} {g : String × Node → Option β} {name : String}
    {old new : Node} {entries : List (String × Node)} (h : entries.lookup name = some old)
    (hg : g (name, new) = g (name, old)) :
    (setEntry name new entries).filterMap g = entries.filterMap g := by
  induction entries with
  | nil => cases h
  | cons entry rest ih =>
    obtain ⟨first, node⟩ := entry
    rw [NameMap.lookup_cons_eq] at h
    rw [setEntry]
    split at h
    · next heq =>
      obtain rfl : name = first := heq
      obtain rfl := Option.some.inj h
      rw [if_pos rfl, List.filterMap_cons, List.filterMap_cons, hg]
    · next hne =>
      rw [if_neg (Ne.symm hne), List.filterMap_cons, List.filterMap_cons, ih h]

end Node

namespace FileTree

open Node

variable {tree : FileTree} {trail found : Trail} {p : Path}

/-! ## Trails to a place -/

/-- Each node of the trail that a path leads along is an entry of the directory before it. -/
theorem isTrail_of_trailOf (h : tree.trailOf .existing p = .ok trail) : IsTrail tree trail := by
  obtain ⟨-, hwalk⟩ := trailOf_eq_ok_iff.1 h
  rcases (follows_of_walk (by simp) hwalk).isTrail trivial with htrail | ⟨hlast, -⟩
  · exact htrail
  · cases hlast

/-- There is one trail to a place. -/
theorem IsTrail.eq_of_placeOf_eq (htrail : IsTrail tree trail) (hfound : IsTrail tree found)
    (h : placeOf trail = placeOf found) : trail = found := by
  induction trail generalizing found with
  | nil =>
    cases found with
    | nil => rfl
    | cons entry rest => simp [placeOf] at h
  | cons entry rest ih =>
    obtain ⟨name, node⟩ := entry
    cases found with
    | nil => simp [placeOf] at h
    | cons other others =>
      obtain ⟨name', node'⟩ := other
      obtain ⟨hrest, entries, hdir, hentry⟩ := htrail
      obtain ⟨hothers, entries', hdir', hentry'⟩ := hfound
      rw [placeOf_cons, placeOf_cons] at h
      obtain ⟨hplace, hname⟩ := List.append_inj' h rfl
      obtain rfl := ih hrest hothers hplace
      obtain rfl := List.singleton_inj.1 hname
      obtain rfl := Node.directory.inj (hdir.symm.trans hdir')
      obtain rfl := Option.some.inj (hentry.symm.trans hentry')
      rfl

/-! ## Adding a file -/

section Adding

variable {entries : List (String × Node)} {name : String} (contents : Contents)
  (htrail : IsTrail tree trail) (hdir : tree.nodeAt trail = .directory entries)
  (hvacant : entries.lookup name = none)
include htrail hdir hvacant

/-- A file can be put under a name that no entry of the directory has. -/
theorem canHold_of_vacant : CanHold (placeOf trail ++ [name]) (some tree.root) := by
  rw [htrail.canHold_iff, hdir, canHold_cons_directory, hvacant]
  exact canHold_nil_none

/-- A directory once a file was added somewhere.  Whatever reads directories as nothing finds
at most the new file in addition. -/
theorem exists_renewNode_directory {β : Type} {g : String × Node → Option β}
    (hg : ∀ name inner, g (name, .directory inner) = none) (hfound : IsTrail tree found)
    {listed : List (String × Node)} (hlisted : tree.nodeAt found = .directory listed) :
    ∃ renewed, renewNode (placeOf trail ++ [name]) contents (placeOf found) (.directory listed) =
        .directory renewed ∧
      Extends (fun y => found = trail ∧ g (name, .file contents) = some y)
        (listed.filterMap g) (renewed.filterMap g) := by
  by_cases hway : placeOf found <+: placeOf trail ++ [name]
  swap
  · exact ⟨listed, renewNode_of_not_prefix hway _, .refl _⟩
  obtain ⟨rest, hrest⟩ := hway
  have hbelow := hfound.held (canHold_of_vacant htrail hdir hvacant) rest hrest.symm
  rw [hlisted] at hbelow
  rcases rest with _ | ⟨next, rest⟩
  · exact absurd hbelow (by simp)
  rw [canHold_cons_directory] at hbelow
  refine ⟨setEntry next (update (fun _ => .file contents) rest (listed.lookup next)) listed,
    by simp [renewNode, ← hrest, update], ?_⟩
  -- At the end of the way the directory is the one that the file is added to.
  have hend : rest = [] → found = trail ∧ next = name := by
    rintro rfl
    obtain ⟨hplace, hname⟩ := List.append_inj' hrest rfl
    exact ⟨hfound.eq_of_placeOf_eq htrail hplace, List.singleton_inj.1 hname⟩
  rcases hentry : listed.lookup next with _ | (old | inner | link)
  · rw [hentry] at hbelow
    obtain rfl : rest = [] := by
      cases rest with
      | nil => rfl
      | cons name rest => simp [CanHold] at hbelow
    obtain ⟨hsame, rfl⟩ := hend rfl
    rw [setEntry_of_lookup_eq_none _ hentry]
    have hadded : Extends (· = (next, Node.file contents)) listed
        (listed ++ [(next, .file contents)]) :=
      .concat listed rfl
    exact hadded.filterMap (fun _ _ => rfl) fun entry y heq hread => ⟨hsame, heq ▸ hread⟩
  · rw [hentry] at hbelow
    obtain rfl : rest = [] := by
      cases rest with
      | nil => rfl
      | cons name rest => simp at hbelow
    obtain ⟨rfl, rfl⟩ := hend rfl
    obtain rfl := Node.directory.inj (hdir.symm.trans hlisted)
    cases hvacant.symm.trans hentry
  · rw [hentry] at hbelow
    cases rest with
    | nil => simp at hbelow
    | cons below rest =>
      rw [filterMap_setEntry hentry (by rw [update, hg, hg])]
      exact .refl _
  · rw [hentry] at hbelow
    simp at hbelow

/-- What a directory lists once a file was added somewhere: to whatever reads directories as
nothing, what it listed before and at most the new file in addition. -/
theorem listDirectory_place {β : Type} {g : String × Node → Option β}
    (hg : ∀ name inner, g (name, .directory inner) = none) {listed : List (String × Node)}
    (h : tree.listDirectory p = .ok listed) :
    ∃ renewed, (tree.place (placeOf trail ++ [name]) (.file contents)).listDirectory p =
        .ok renewed ∧
      Extends (fun y => tree.trailOf .existing p = .ok trail ∧ g (name, .file contents) = some y)
        (listed.filterMap g) (renewed.filterMap g) := by
  obtain ⟨found, hfound, hlisted⟩ := map_eq_ok_iff.1 (listDirectory_eq_ok_iff.1 h)
  obtain ⟨renewed, hrenewed, hextends⟩ := exists_renewNode_directory contents htrail hdir hvacant hg
    (isTrail_of_trailOf hfound) hlisted
  refine ⟨renewed, listDirectory_eq_ok_iff.2 (map_eq_ok_iff.2 ⟨_, trailOf_place contents
    (canHold_of_vacant htrail hdir hvacant) (by simp) hfound (Or.inl rfl), ?_⟩), ?_⟩
  · rw [nodeAt_renew, hlisted, hrenewed]
  · exact hextends.imp fun y ⟨hsame, hread⟩ => ⟨hsame ▸ hfound, hread⟩

end Adding

end FileTree
end EbuildGraph
