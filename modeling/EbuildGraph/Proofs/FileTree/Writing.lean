import EbuildGraph.Names.NameMap
import EbuildGraph.Proofs.FileTree.Places

/-!
# Reading after writing

A file is written at the place that its path leads to.  Writing renews the nodes on the way to
this place and no others, and no link is among them.  A path that led anywhere before therefore
leads over the same names afterwards, and only what is read at the place itself changes.

Main definitions:

- {lit}`FileTree.renew`: a trail with its nodes as they are once a file is written.
- {lit}`FileTree.SameFile`: whether two paths lead to one place.

Main results:

- Theorem {lit}`Follows.renew`: names lead over the same places after a file was written.
- Theorem {lit}`readText_writeText`: a file that was written is read back.
- Theorem {lit}`readText_of_rewritten`: a file that is written anew changes no other file.
-/

namespace EbuildGraph

/-! ## Nodes that were put at a place -/

namespace Node

/-- A written entry is read back and no other entry changes. -/
theorem lookup_setEntry (name other : String) (node : Node) (entries : List (String × Node)) :
    (setEntry name node entries).lookup other =
      if other = name then some node else entries.lookup other := by
  induction entries with
  | nil => simp [setEntry, NameMap.lookup_cons_eq]
  | cons entry rest ih =>
    rw [setEntry]
    by_cases hentry : entry.1 = name
    · rw [if_pos hentry, NameMap.lookup_cons_eq, NameMap.lookup_cons_eq]
      by_cases hother : other = name <;> simp [hother, hentry]
    · rw [if_neg hentry, NameMap.lookup_cons_eq, NameMap.lookup_cons_eq, ih]
      by_cases hother : other = entry.1
      · simp [hother, hentry]
      · simp [hother]

/-- Of two entries written under one name the last stays. -/
theorem setEntry_setEntry (name : String) (node other : Node) (entries : List (String × Node)) :
    setEntry name node (setEntry name other entries) = setEntry name node entries := by
  induction entries with
  | nil => simp [setEntry]
  | cons entry rest ih =>
    by_cases hentry : entry.1 = name
    · simp [setEntry, hentry]
    · simp [setEntry, hentry, ih]

/-- Of two nodes put at one place the last stays. -/
theorem update_update (new old : Node) (place : List String) (node : Option Node) :
    update (fun _ => new) place (some (update (fun _ => old) place node)) =
      update (fun _ => new) place node := by
  have hmissing (rest : List String) (name : String) (node : Option Node)
      (h : ∀ entries, node ≠ some (.directory entries)) (f : Option Node → Node) :
      update f (name :: rest) node = .directory [(name, update f rest none)] := by
    rcases node with _ | (_ | _ | _)
    · rfl
    · rfl
    · exact absurd rfl (h _)
    · rfl
  induction place generalizing node with
  | nil => rfl
  | cons name rest ih =>
    by_cases h : ∃ entries, node = some (.directory entries)
    · obtain ⟨entries, rfl⟩ := h
      simp only [update, lookup_setEntry, if_true, setEntry_setEntry, ih]
    · have hnode : ∀ entries, node ≠ some (.directory entries) := fun entries heq =>
        h ⟨entries, heq⟩
      rw [hmissing rest name node hnode, hmissing rest name node hnode, update]
      simp [setEntry, ih]

/-- A place that can hold a file can do so when there is one. -/
theorem canHold_update {file : Contents} {place : List String} {node : Option Node}
    (h : CanHold place node) :
    CanHold place (some (update (fun _ => .file file) place node)) := by
  induction place generalizing node with
  | nil => simp [update]
  | cons name rest ih =>
    rcases node with _ | (_ | entries | _)
    · simp [CanHold] at h
    · simp at h
    · simpa [update, lookup_setEntry] using ih h
    · simp at h

end Node

namespace FileTree

open Node

variable {tree : FileTree} {last : LastName} {links : Nat} {trail found : Trail}
  {names : List String}

/-! ## Trails after a file was written -/

section Renewal

/-- A node of a tree once a file is put at a place: it changes when it lies on the way. -/
def renewNode (target : List String) (file : Contents) (place : List String) (node : Node) :
    Node :=
  if place <+: target then update (fun _ => .file file) (target.drop place.length) (some node)
  else node

/-- A trail with its nodes as they are once a file is put at a place. -/
def renew (target : List String) (file : Contents) : Trail → Trail
  | [] => []
  | (name, node) :: rest =>
    (name, renewNode target file (placeOf rest ++ [name]) node) :: renew target file rest

variable {target : List String} {file : Contents}

/-- A trail leads to the same place once a file is put somewhere. -/
@[simp]
theorem placeOf_renew (trail : Trail) : placeOf (renew target file trail) = placeOf trail := by
  induction trail with
  | nil => rfl
  | cons entry rest ih =>
    obtain ⟨name, node⟩ := entry
    simp [renew, ih]

theorem tail_renew (trail : Trail) :
    (renew target file trail).tail = renew target file trail.tail := by
  cases trail <;> rfl

/-- The node at the end of a trail once the file is written. -/
theorem nodeAt_renew (trail : Trail) :
    (tree.place target (.file file)).nodeAt (renew target file trail) =
      renewNode target file (placeOf trail) (tree.nodeAt trail) := by
  cases trail with
  | nil => simp [renew, renewNode, nodeAt, place]
  | cons entry rest =>
    obtain ⟨name, node⟩ := entry
    simp [renew, nodeAt]

/-- At the place of the file there is the file afterwards. -/
theorem renewNode_self (target : List String) (file : Contents) (node : Node) :
    renewNode target file target node = .file file := by
  simp [renewNode, update]

/-- A node that does not lie on the way to the file stays as it was. -/
theorem renewNode_of_not_prefix {place : List String} (h : ¬ place <+: target) (node : Node) :
    renewNode target file place node = node :=
  if_neg h

/-- What a renewed directory has under each name. -/
theorem renewNode_directory {place : List String} {entries : List (String × Node)}
    (hheld : ∀ rest, target = place ++ rest → CanHold rest (some (.directory entries))) :
    ∃ renewed, renewNode target file place (.directory entries) = .directory renewed ∧
      (∀ name node, entries.lookup name = some node →
        renewed.lookup name = some (renewNode target file (place ++ [name]) node)) ∧
      ∀ name, place ++ [name] = target → renewed.lookup name = some (.file file) := by
  by_cases hplace : place <+: target
  · obtain ⟨rest, rfl⟩ := hplace
    rcases rest with _ | ⟨next, rest⟩
    · exact absurd (hheld [] rfl) (by simp)
    · refine ⟨setEntry next (update (fun _ => .file file) rest (entries.lookup next)) entries,
        ?_, ?_, ?_⟩
      · simp [renewNode, update]
      · intro name node hentry
        rw [lookup_setEntry]
        by_cases hname : name = next
        · subst hname
          simp [renewNode, hentry, List.prefix_append_right_inj]
        · simp [renewNode, hname, hentry, List.prefix_append_right_inj]
      · intro name hname
        obtain ⟨rfl, rfl⟩ : name = next ∧ rest = [] := by simpa using hname
        simp [lookup_setEntry, update]
  · refine ⟨entries, renewNode_of_not_prefix hplace _, fun name node hentry => ?_, ?_⟩
    · have hname : ¬ place ++ [name] <+: target := fun h =>
        hplace ((List.prefix_append place [name]).trans h)
      rw [hentry, renewNode_of_not_prefix hname]
    · rintro name rfl
      exact absurd (List.prefix_append place [name]) hplace

/-- A node that is no link does not become one. -/
theorem renewNode_ne_link {place : List String} {node : Node} (h : ∀ link, node ≠ .link link)
    (link : Path) : renewNode target file place node ≠ .link link := by
  unfold renewNode
  split
  · rcases target.drop place.length with _ | ⟨name, rest⟩
    · simp [update]
    · cases node with
      | file contents => simp [update]
      | directory entries => simp [update]
      | link target => exact absurd rfl (h target)
  · exact h link

variable (file) (hheld : CanHold target (some tree.root))
include hheld

/-- Where a trail leads on the way to the file, the rest of the way can hold the file. -/
theorem IsTrail.held (h : IsTrail tree trail) (rest : List String)
    (hrest : target = placeOf trail ++ rest) : CanHold rest (some (tree.nodeAt trail)) :=
  (h.canHold_iff rest).1 (hrest ▸ hheld)

/-- A directory at the end of a trail once the file is written. -/
theorem IsTrail.nodeAt_renew_directory (h : IsTrail tree trail)
    {entries : List (String × Node)} (hdir : tree.nodeAt trail = .directory entries) :
    ∃ renewed, (tree.place target (.file file)).nodeAt (renew target file trail) =
        .directory renewed ∧
      (∀ name node, entries.lookup name = some node →
        renewed.lookup name = some (renewNode target file (placeOf trail ++ [name]) node)) ∧
      ∀ name, placeOf trail ++ [name] = target → renewed.lookup name = some (.file file) := by
  rw [nodeAt_renew, hdir]
  exact renewNode_directory fun rest hrest => hdir ▸ h.held hheld rest hrest

/-- Names lead over the same places once a file is written.  A file that was to be made is
found where it was written. -/
theorem Follows.renew (h : Follows tree last links trail names found)
    (htrail : IsTrail tree trail) (hlast : last = .existing ∨ placeOf found = target) :
    Follows (tree.place target (.file file)) .existing links (renew target file trail) names
      (renew target file found) := by
  induction h with
  | done => exact .done
  | stay hdir hname _ ih =>
    obtain ⟨renewed, hrenewed, -, -⟩ := htrail.nodeAt_renew_directory file hheld hdir
    exact .stay hrenewed hname (ih htrail hlast)
  | up hdir _ ih =>
    obtain ⟨renewed, hrenewed, -, -⟩ := htrail.nodeAt_renew_directory file hheld hdir
    have hrest := ih htrail.tail hlast
    rw [← tail_renew] at hrest
    exact .up hrenewed hrest
  | enter hdir hname hentry hlink _ ih =>
    obtain ⟨renewed, hrenewed, hentries, -⟩ :=
      htrail.nodeAt_renew_directory file hheld hdir
    exact .enter hrenewed hname (hentries _ _ hentry) (renewNode_ne_link hlink)
      (ih ⟨htrail, _, hdir, hentry⟩ hlast)
  | @link links trail name rest found entries source hdir hname hentry _ ih =>
    obtain ⟨renewed, hrenewed, hentries, -⟩ :=
      htrail.nodeAt_renew_directory file hheld hdir
    -- A link does not lie on the way to a place that can hold a file.
    have hkept : renewNode target file (placeOf trail ++ [name]) (.link source) =
        .link source := by
      refine renewNode_of_not_prefix ?_ _
      rintro ⟨rest, hrest⟩
      have hbelow := htrail.held hheld (name :: rest) (by simp [← hrest])
      simp [hdir, hentry] at hbelow
    have hstart : (if source.isAbsolute then [] else FileTree.renew target file trail) =
        FileTree.renew target file (if source.isAbsolute then [] else trail) := by
      split <;> rfl
    refine .link hrenewed hname (hkept ▸ hentries _ _ hentry) ?_
    rw [hstart]
    refine ih ?_ hlast
    split
    · trivial
    · exact htrail
  | @create links trail name entries hdir hname hentry hcreatable =>
    obtain rfl : placeOf trail ++ [name] = target := by simpa [hcreatable] using hlast
    obtain ⟨renewed, hrenewed, -, hwritten⟩ :=
      htrail.nodeAt_renew_directory file hheld hdir
    have hnode := renewNode_self (placeOf trail ++ [name]) file (.file (.text ""))
    rw [FileTree.renew, hnode]
    exact .enter hrenewed hname (hwritten name rfl) nofun .done

end Renewal

/-! ## Reading files -/

/-- Every path is followed by some names from the root. -/
theorem namesFromRoot_ne_nil (tree : FileTree) (p : Path) : tree.namesFromRoot p ≠ [] := by
  unfold namesFromRoot namesOf
  split <;> simp [Text.fields_ne_nil]

/-- A file that can be read is at the end of a trail. -/
theorem readText_eq_ok_iff {p : Path} {s : String} : tree.readText p = .ok s ↔
    ∃ trail contents, tree.trailOf .existing p = .ok trail ∧
      tree.nodeAt trail = .file contents ∧ contents.decode = .ok s := by
  unfold readText find
  cases htrail : tree.trailOf .existing p with
  | error fault => simp [Except.map]
  | ok trail => cases hnode : tree.nodeAt trail <;> simp [Except.map, hnode]

/-- Where a file was written, and what became of the tree. -/
theorem writeText_eq_ok {p : Path} {s : String} {written : FileTree}
    (h : tree.writeText p s = .ok written) :
    ∃ trail, tree.trailOf .creatable p = .ok trail ∧
      CanHold (placeOf trail) (some tree.root) ∧
      written = tree.place (placeOf trail) (.file (.text s)) := by
  unfold writeText at h
  split at h
  next => cases h
  next trail htrail =>
    split at h
    next => cases h
    next hdir =>
      obtain ⟨-, hwalk⟩ := trailOf_eq_ok_iff.1 htrail
      have hfollows := follows_of_walk (by simp) hwalk
      exact ⟨trail, htrail,
        hfollows.canHold (tree.namesFromRoot_ne_nil p) (by simpa using hdir),
        (Except.ok.inj h).symm⟩

/-- Where paths lead once a file is put at a place. -/
theorem trailOf_place {target : List String} (file : Contents) {p : Path}
    (hheld : CanHold target (some tree.root)) (hitself : last ≠ .itself)
    (h : tree.trailOf last p = .ok found) (hlast : last = .existing ∨ placeOf found = target) :
    (tree.place target (.file file)).trailOf .existing p = .ok (renew target file found) := by
  obtain ⟨htext, hwalk⟩ := trailOf_eq_ok_iff.1 h
  have hfollows := follows_of_walk hitself hwalk
  exact trailOf_eq_ok_iff.2 ⟨htext, (hfollows.renew file hheld trivial hlast).walk⟩

/-- A file that was written is read back. -/
theorem readText_writeText {p : Path} {s : String} {written : FileTree}
    (h : tree.writeText p s = .ok written) : written.readText p = .ok s := by
  obtain ⟨trail, htrail, hheld, rfl⟩ := writeText_eq_ok h
  have hread := trailOf_place (.text s) hheld (by simp) htrail (Or.inr rfl)
  refine readText_eq_ok_iff.2 ⟨_, .text s, hread, ?_, rfl⟩
  rw [nodeAt_renew, renewNode_self]

/-- Whether two paths lead to one place. -/
def SameFile (tree : FileTree) (p q : Path) : Prop :=
  ∃ pTrail qTrail, tree.trailOf .existing p = .ok pTrail ∧
    tree.trailOf .existing q = .ok qTrail ∧ placeOf pTrail = placeOf qTrail

/-- Putting a file at a place does not change what is read elsewhere. -/
theorem readText_place {target : List String} {file : Contents} {p : Path} {s : String}
    (hheld : CanHold target (some tree.root)) (h : tree.readText p = .ok s)
    (hother : ∀ trail, tree.trailOf .existing p = .ok trail → placeOf trail ≠ target) :
    (tree.place target (.file file)).readText p = .ok s := by
  obtain ⟨trail, contents, htrail, hfile, hdecode⟩ := readText_eq_ok_iff.1 h
  have hrenewed := trailOf_place file hheld (by simp) htrail (Or.inl rfl)
  refine readText_eq_ok_iff.2 ⟨_, contents, hrenewed, ?_, hdecode⟩
  have hne : ¬ placeOf trail <+: target := by
    rintro ⟨rest, hrest⟩
    obtain ⟨-, hwalk⟩ := trailOf_eq_ok_iff.1 htrail
    rcases (follows_of_walk (by simp) hwalk).isTrail trivial with hat | ⟨hlast, -⟩
    · have hbelow := hat.held hheld rest hrest.symm
      rw [hfile] at hbelow
      cases rest with
      | nil => exact hother trail htrail (by simpa using hrest)
      | cons name rest => simp at hbelow
    · cases hlast
  rw [nodeAt_renew, renewNode_of_not_prefix hne, hfile]

/-- A file that is written anew, with another text, changes no other file. -/
theorem readText_of_rewritten {p q : Path} {s t text : String} {written rewritten : FileTree}
    (hwritten : tree.writeText p s = .ok written)
    (hrewritten : tree.writeText p t = .ok rewritten) (hother : ¬ written.SameFile q p)
    (h : written.readText q = .ok text) : rewritten.readText q = .ok text := by
  obtain ⟨trail, htrail, hheld, rfl⟩ := writeText_eq_ok hwritten
  obtain ⟨same, hsame, -, rfl⟩ := writeText_eq_ok hrewritten
  obtain rfl : trail = same := Except.ok.inj (htrail.symm.trans hsame)
  have hagain : tree.place (placeOf trail) (.file (.text t)) =
      (tree.place (placeOf trail) (.file (.text s))).place (placeOf trail) (.file (.text t)) := by
    simp [place, update_update]
  have hp := trailOf_place (.text s) hheld (by simp) htrail (Or.inr rfl)
  rw [hagain]
  refine readText_place (canHold_update hheld) h fun qTrail hq heq => hother ?_
  exact ⟨qTrail, _, hq, hp, by rw [heq, placeOf_renew]⟩

end FileTree
end EbuildGraph
