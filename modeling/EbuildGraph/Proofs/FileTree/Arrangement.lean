import EbuildGraph.FileTree
import EbuildGraph.Names.NameMap
import Mathlib.Data.List.Forall2

/-!
# Order of the entries of directories

A directory reports its entries in some order.  Two trees that differ in such orders alone give
the same answer to every question about a path, but for the order in which the entries of a
directory are listed.  The walk along a path is followed in both trees at once, and the nodes on
the way are the same up to order.

Main definitions:

- {lit}`Node.Rearranges`, {lit}`FileTree.Rearranges`: whether nodes and trees differ in the order of
  entries alone.
- {lit}`FileTree.ReadsAlike`: whether files read the same in two trees.

Main results:

- Theorem {lit}`Node.rearranges_of_perm`: entries may be put in any order.
- Theorem {lit}`FileTree.Rearranges.find`: what a path leads to in both trees.
- Theorem {lit}`FileTree.Rearranges.readsAlike`: files read the same in both.
- Theorem {lit}`Node.Rearranges.perm_filterMap`: what is picked from the entries of a directory
  is the same up to order.
-/

namespace EbuildGraph

/-! ## Nodes -/

/-- Whether a node is another one with the entries of directories, at any depth, in another
order.  No directory has two entries of one name. -/
inductive Node.Rearranges : Node → Node → Prop
  | file (contents : Contents) : Rearranges (.file contents) (.file contents)
  | link (target : Path) : Rearranges (.link target) (.link target)
  | directory {entries others : List (String × Node)} (hnodup : (entries.map Prod.fst).Nodup)
      (hnames : (entries.map Prod.fst).Perm (others.map Prod.fst))
      (hnodes : ∀ name node other, entries.lookup name = some node →
        others.lookup name = some other → Rearranges node other) :
      Rearranges (.directory entries) (.directory others)

namespace Node

variable {node other : Node} {entries others : List (String × Node)} {name : String}

/-- Nothing is found under a name that does not stand in the list. -/
theorem lookup_eq_none_iff : entries.lookup name = none ↔ name ∉ entries.map Prod.fst := by
  rw [List.lookup_eq_none_iff, List.mem_map]
  constructor
  · rintro h ⟨entry, hentry, rfl⟩
    simpa using h entry hentry
  · intro h entry hentry
    rw [bne_iff_ne]
    rintro rfl
    exact h ⟨entry, hentry, rfl⟩

/-- An entry is found by its name where no other one has it. -/
theorem lookup_of_mem (hnodup : (entries.map Prod.fst).Nodup) (h : (name, node) ∈ entries) :
    entries.lookup name = some node :=
  NameMap.lookup_eq_some_of_mem (List.pairwise_map.1 hnodup) h

/-- The entries of a directory may be put in any order. -/
theorem rearranges_of_perm (hnodup : (entries.map Prod.fst).Nodup) (hperm : entries.Perm others)
    (hself : ∀ entry ∈ entries, entry.2.Rearranges entry.2) :
    Rearranges (.directory entries) (.directory others) := by
  refine .directory hnodup (hperm.map Prod.fst) fun name node other hnode hother => ?_
  have hmem := hperm.mem_iff.2 (NameMap.mem_of_lookup_eq_some hother)
  obtain rfl := Option.some.inj (hnode.symm.trans (lookup_of_mem hnodup hmem))
  exact hself _ hmem

/-- The entries of a directory may be arranged themselves. -/
theorem rearranges_of_forall₂ (hnodup : (entries.map Prod.fst).Nodup)
    (h : List.Forall₂ (fun entry entry' => entry.1 = entry'.1 ∧ entry.2.Rearranges entry'.2)
      entries others) : Rearranges (.directory entries) (.directory others) := by
  have hnames : entries.map Prod.fst = others.map Prod.fst := by
    clear hnodup
    induction h with
    | nil => rfl
    | cons hentry _ ih => rw [List.map_cons, List.map_cons, hentry.1, ih]
  refine .directory hnodup (.of_eq hnames) fun name node other hnode hother => ?_
  clear hnodup hnames
  induction h with
  | nil => cases hnode
  | @cons entry entry' _ _ hentry _ ih =>
    rw [NameMap.lookup_cons_eq] at hnode hother
    rw [← hentry.1] at hother
    split at hnode
    · next hname =>
      rw [if_pos hname] at hother
      obtain rfl := Option.some.inj hnode
      obtain rfl := Option.some.inj hother
      exact hentry.2
    · next hname =>
      rw [if_neg hname] at hother
      exact ih hnode hother

namespace Rearranges

/-- Whether a node is a directory does not depend on the order of entries. -/
theorem isDirectory_eq (h : node.Rearranges other) : other.isDirectory = node.isDirectory := by
  cases h <;> rfl

/-- Whether a node is a file does not depend on the order of entries. -/
theorem isFile_eq (h : node.Rearranges other) : other.isFile = node.isFile := by
  cases h <;> rfl

section Directories

variable (h : Rearranges (.directory entries) (.directory others))
include h

/-- No name stands twice in a list of entries or in a rearranged one. -/
theorem nodup_names : (entries.map Prod.fst).Nodup ∧ (others.map Prod.fst).Nodup := by
  cases h with
  | directory hnodup hnames _ => exact ⟨hnodup, hnames.nodup_iff.1 hnodup⟩

/-- An entry is in both directories or in none. -/
theorem lookup (name : String) :
    Option.Rel Rearranges (entries.lookup name) (others.lookup name) := by
  cases h with
  | directory hnodup hnames hnodes =>
    cases hfound : entries.lookup name with
    | none =>
      rw [lookup_eq_none_iff, hnames.mem_iff, ← lookup_eq_none_iff] at hfound
      rw [hfound]
      exact .none
    | some node =>
      cases hother : others.lookup name with
      | none =>
        rw [lookup_eq_none_iff, ← hnames.mem_iff, ← lookup_eq_none_iff, hfound] at hother
        cases hother
      | some other => exact .some (hnodes name node other hfound hother)

/-- What is picked from the entries is the same up to order, if their own arrangement does not
count. -/
theorem perm_filterMap {β : Type} {g : String × Node → Option β}
    (hg : ∀ name node other, node.Rearranges other → g (name, node) = g (name, other)) :
    (entries.filterMap g).Perm (others.filterMap g) := by
  have hnames : ∀ es : List (String × Node), (es.map Prod.fst).Nodup → es.filterMap g =
      (es.map Prod.fst).filterMap fun name => (es.lookup name).bind fun node => g (name, node) := by
    intro es hnodup
    rw [List.filterMap_map]
    refine List.filterMap_congr fun entry hentry => ?_
    rw [Function.comp_apply, lookup_of_mem hnodup hentry]
    rfl
  have hsame : (fun name => (others.lookup name).bind fun node => g (name, node)) =
      fun name => (entries.lookup name).bind fun node => g (name, node) := by
    funext name
    have hlookup := h.lookup name
    generalize entries.lookup name = found at hlookup
    generalize others.lookup name = foundOther at hlookup
    cases hlookup with
    | none => rfl
    | some hrel => exact (hg name _ _ hrel).symm
  rw [hnames entries h.nodup_names.1, hnames others h.nodup_names.2, hsame]
  cases h with
  | directory _ hperm _ => exact hperm.filterMap _

end Directories

end Rearranges
end Node

/-! ## Walks in both trees -/

/-- Whether two outcomes are the same failure, or successes with related results. -/
inductive OutcomesAgree {ε α β : Type} (related : α → β → Prop) :
    Except ε α → Except ε β → Prop
  | error (err : ε) : OutcomesAgree related (.error err) (.error err)
  | ok {a : α} {b : β} (h : related a b) : OutcomesAgree related (.ok a) (.ok b)

namespace OutcomesAgree

variable {ε α β : Type} {related : α → β → Prop}

/-- Outcomes that agree are the same failure, or successes with related results. -/
theorem cases {x : Except ε α} {y : Except ε β} (h : OutcomesAgree related x y) :
    (∃ err, x = .error err ∧ y = .error err) ∨ ∃ a b, x = .ok a ∧ y = .ok b ∧ related a b := by
  cases h with
  | error err => exact Or.inl ⟨err, rfl, rfl⟩
  | ok h => exact Or.inr ⟨_, _, rfl, rfl, h⟩

/-- A choice leads to outcomes that agree if both its sides do. -/
theorem ite {c : Prop} [Decidable c] {x x' : Except ε α} {y y' : Except ε β}
    (hpos : c → OutcomesAgree related x y) (hneg : ¬c → OutcomesAgree related x' y') :
    OutcomesAgree related (if c then x else x') (if c then y else y') := by
  split
  · next h => exact hpos h
  · next h => exact hneg h

end OutcomesAgree

namespace FileTree

/-- Whether a tree is another one with the entries of directories in another order. -/
structure Rearranges (tree other : FileTree) : Prop where
  root : tree.root.Rearranges other.root
  workingDirectory : tree.workingDirectory = other.workingDirectory

/-- Whether the nodes on two trails differ in the order of entries alone. -/
def TrailsAgree : Trail → Trail → Prop :=
  List.Forall₂ fun entry other => entry.2.Rearranges other.2

namespace TrailsAgree

variable {trail trail' : Trail}

theorem tail (h : TrailsAgree trail trail') : TrailsAgree trail.tail trail'.tail := by
  cases h with
  | nil => exact .nil
  | cons _ hrest => exact hrest

/-- On trails that agree are nodes that differ in the order of entries alone. -/
theorem nodeAt {tree other : FileTree} (htree : tree.Rearranges other)
    (h : TrailsAgree trail trail') : (tree.nodeAt trail).Rearranges (other.nodeAt trail') := by
  cases h with
  | nil => exact htree.root
  | cons hnode _ => exact hnode

end TrailsAgree

namespace Rearranges

variable {tree other : FileTree} (h : tree.Rearranges other)
include h

/-- Following names leads to the same place in both trees if following links does. -/
theorem walkWith {follow follow' : Trail → List String → Except FileFault Trail} {last : LastName}
    (hfollow : ∀ {trail trail' : Trail} (names : List String), TrailsAgree trail trail' →
      OutcomesAgree TrailsAgree (follow trail names) (follow' trail' names))
    {trail trail' : Trail} (htrail : TrailsAgree trail trail') (names : List String) :
    OutcomesAgree TrailsAgree (FileTree.walkWith follow tree last trail names)
      (FileTree.walkWith follow' other last trail' names) := by
  induction names generalizing trail trail' with
  | nil => exact .ok htrail
  | cons name rest ih =>
    unfold FileTree.walkWith
    have hnode := htrail.nodeAt h
    generalize tree.nodeAt trail = node at hnode
    generalize other.nodeAt trail' = node' at hnode
    cases hnode with
    | file contents => exact .error _
    | link target => exact .error _
    | @directory entries entries' hnodup hnames hnodes =>
      have hlookup := (Node.Rearranges.directory hnodup hnames hnodes).lookup name
      refine .ite (fun _ => ih htrail) fun _ => ?_
      refine .ite (fun _ => ih htrail.tail) fun _ => ?_
      refine .ite (fun _ => .error _) fun _ => ?_
      refine .ite (fun _ => .error _) fun _ => ?_
      generalize entries.lookup name = found at hlookup
      generalize entries'.lookup name = found' at hlookup
      cases hlookup with
      | none => exact .ite (fun _ => .ok (.cons (.file _) htrail)) fun _ => .error _
      | some hfound =>
        cases hfound with
        | file contents => exact ih (.cons (.file contents) htrail)
        | directory hnodup hnames hnodes =>
          exact ih (.cons (.directory hnodup hnames hnodes) htrail)
        | link target =>
          refine .ite (fun _ => .ok (.cons (.link target) htrail)) fun _ => hfollow _ ?_
          split
          · exact .nil
          · exact htrail

/-- Walks lead to the same place in both trees. -/
theorem walk {last : LastName} (links : Nat) {trail trail' : Trail}
    (htrail : TrailsAgree trail trail') (names : List String) :
    OutcomesAgree TrailsAgree (FileTree.walk tree last links trail names)
      (FileTree.walk other last links trail' names) := by
  induction links generalizing trail trail' names with
  | zero => exact h.walkWith (fun _ _ => .error _) htrail names
  | succ links ih => exact h.walkWith (fun names htrail => ih htrail names) htrail names

/-- Paths lead along trails that agree in both trees, or fail alike. -/
theorem trailOf (last : LastName) (p : Path) :
    OutcomesAgree TrailsAgree (tree.trailOf last p) (other.trailOf last p) := by
  unfold FileTree.trailOf
  refine .ite (fun _ => .error _) fun _ => .ite (fun _ => .error _) fun _ =>
    .ite (fun _ => .error _) fun _ => ?_
  rw [← h.workingDirectory]
  exact h.walk _ .nil _

/-- What a path leads to is the same in both trees, up to the order of entries. -/
theorem find (p : Path) :
    OutcomesAgree Node.Rearranges (tree.find p) (other.find p) := by
  unfold FileTree.find
  obtain ⟨fault, htrail, htrail'⟩ | ⟨trail, trail', htrail, htrail', hagree⟩ :=
    (h.trailOf .existing p).cases
  · rw [htrail, htrail']
    exact .error fault
  · rw [htrail, htrail']
    exact .ok (hagree.nodeAt h)

/-- The entries of a directory are the same in both trees, up to order. -/
theorem listDirectory (p : Path) :
    OutcomesAgree (fun entries others => Node.Rearranges (.directory entries) (.directory others))
      (tree.listDirectory p) (other.listDirectory p) := by
  unfold FileTree.listDirectory
  obtain ⟨fault, hfind, hfind'⟩ | ⟨node, node', hfind, hfind', hnode⟩ := (h.find p).cases
  · rw [hfind, hfind']
    exact .error fault
  · rw [hfind, hfind']
    cases hnode with
    | file contents => exact .error _
    | link target => exact .error _
    | directory hnodup hnames hnodes => exact .ok (.directory hnodup hnames hnodes)

end Rearranges

/-! ## Files -/

/-- Whether files read the same in two trees. -/
structure ReadsAlike (tree other : FileTree) : Prop where
  readText : ∀ p, tree.readText p = other.readText p
  isFile : ∀ p, tree.isFile p = other.isFile p
  pathExists : ∀ p, tree.pathExists p = other.pathExists p

/-- The order of entries does not count where files are read. -/
theorem Rearranges.readsAlike {tree other : FileTree} (h : tree.Rearranges other) :
    tree.ReadsAlike other := by
  constructor
  all_goals
    intro p
    obtain ⟨fault, hfind, hfind'⟩ | ⟨node, node', hfind, hfind', hnode⟩ := (h.find p).cases
  · rw [readText, readText, hfind, hfind']
  · rw [readText, readText, hfind, hfind']
    cases hnode <;> rfl
  · rw [isFile, isFile, hfind, hfind']
  · rw [isFile, isFile, hfind, hfind']
    exact hnode.isFile_eq.symm
  · rw [pathExists, pathExists, hfind, hfind']
  · rw [pathExists, pathExists, hfind, hfind']
    rfl

end FileTree
end EbuildGraph
