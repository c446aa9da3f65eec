import EbuildGraph.Proofs.Path.Clean
import EbuildGraph.Proofs.Success
import EbuildGraph.Repository.Profile
import Mathlib.Data.List.Basic
import Mathlib.Logic.Relation

/-!
# Places of profiles

References to profiles come from files and may be spelled with dots and any number of slashes.
Wherever one leads, by name or by path, the place is a repository and a cleaned path that goes
over names only.  Profiles are loaded from such places alone, and so are the profiles that they
inherit, whatever is between them.

Main definitions:

- {lit}`ProfileAddress.LiesIn`: whether a place is below the profiles of a listed repository.
- {lit}`Profile.Inherits`: whether a profile is another one or inherits it at any remove.
- {lit}`RepositorySet.IsLoadedFrom`: whether a profile is loaded from a place, however deep it
  inherits.

Main results:

- Theorems {lit}`RepositorySet.liesIn_of_locateByName`, {lit}`RepositorySet.liesIn_of_locateByPath`
  and {lit}`RepositorySet.liesIn_of_locate`: where references lead.
- Theorem {lit}`RepositorySet.isLoadedFrom_iff`: what is loaded from a place is loaded within some
  depth of inheritance.
- Theorem {lit}`RepositorySet.IsLoadedFrom.places`: what one profile says of those it inherits.
- Theorem {lit}`RepositorySet.profiles_lieBelow`: every profile that is obtained, and all that
  it inherits, is below the profiles of a repository and is named for its place there.
-/

namespace EbuildGraph

/-- Whether a place is below the profiles of a repository of the set, on a cleaned path over
names. -/
structure ProfileAddress.LiesIn (a : ProfileAddress) (s : RepositorySet) : Prop where
  isListed : s.repositories[a.index]? = some a.repository
  isDownward : a.key.IsDownward
  clean_key : a.key.clean = a.key

namespace RepositorySet

variable {tree : FileTree} {s : RepositorySet} {a : ProfileAddress}

/-! ## Where references lead -/

/-- A path without the slashes at its end. -/
def withoutEndSlashes (reference : String) : Path :=
  ⟨String.ofList (Text.dropEndWhile (· == '/') reference.toList)⟩

/-- A reference within a repository leads to the cleaned path if that goes over names only. -/
theorem addressIn_eq_ok_iff {index : Nat} {r : Repository} {reference : String} :
    addressIn index r reference = .ok a ↔ (withoutEndSlashes reference).clean.IsDownward ∧
      a.index = index ∧ a.repository = r ∧ a.key = (withoutEndSlashes reference).clean := by
  have haddress : addressIn index r reference =
      if (withoutEndSlashes reference).clean.isAbsolute ||
          (withoutEndSlashes reference).clean.components.head? = some .parent
      then .error (.profile (.outside r.name reference))
      else .ok ⟨index, r, (withoutEndSlashes reference).clean⟩ := rfl
  rw [haddress, Path.isDownward_clean_iff]
  split
  · next houtside =>
    rw [Bool.or_eq_true, decide_eq_true_eq] at houtside
    constructor
    · nofun
    · rintro ⟨⟨hrelative, hhead⟩, -⟩
      rcases houtside with habsolute | hparent
      · simp [hrelative] at habsolute
      · exact absurd hparent hhead
  · next hinside =>
    rw [Bool.or_eq_true, decide_eq_true_eq, not_or, Bool.not_eq_true] at hinside
    obtain ⟨place, other, key⟩ := a
    simp [hinside, eq_comm]

/-- An address made in a repository of the set lies in the set. -/
theorem liesIn_of_addressIn {index : Nat} {r : Repository} {reference : String}
    (hr : s.repositories[index]? = some r) (h : addressIn index r reference = .ok a) :
    a.LiesIn s := by
  obtain ⟨hdown, hindex, hrepository, hkey⟩ := addressIn_eq_ok_iff.1 h
  refine ⟨hindex ▸ hrepository ▸ hr, ?_, ?_⟩
  · rw [hkey]
    exact hdown
  · rw [hkey]
    exact (withoutEndSlashes reference).clean_clean

/-- The repository that a name finds stands at its index and carries the name. -/
theorem find?_eq_some {name : String} {index : Nat} {r : Repository}
    (h : s.find? name = some (index, r)) :
    s.repositories[index]? = some r ∧ r.name = name := by
  obtain ⟨entry, hentry, heq⟩ := Option.map_eq_some_iff.1 h
  obtain ⟨rfl, rfl⟩ := Prod.mk.inj heq
  have hmem := List.mem_reverse.1 (List.mem_of_find?_eq_some hentry)
  exact ⟨List.mem_zipIdx_iff_getElem?.1 hmem, by simpa using List.find?_some hentry⟩

/-- The parts of a name that leads anywhere. -/
theorem locateByName_eq_ok_iff {name : String} : s.locateByName name = .ok a ↔
    ∃ repository reference index r, Text.cut ':' name = some (repository, reference) ∧
      s.find? repository = some (index, r) ∧ addressIn index r reference = .ok a := by
  unfold locateByName
  rcases Text.cut ':' name with _ | ⟨repository, reference⟩
  · simp
  · rcases hfind : s.find? repository with _ | ⟨index, r⟩ <;> simp [hfind]

/-- A name leads below the profiles of a repository. -/
theorem liesIn_of_locateByName {name : String} (h : s.locateByName name = .ok a) : a.LiesIn s := by
  obtain ⟨_, _, _, _, -, hfind, haddress⟩ := locateByName_eq_ok_iff.1 h
  exact liesIn_of_addressIn (find?_eq_some hfind).1 haddress

/-- What is found to contain a path is listed and has the path below its profiles. -/
theorem findContaining?_eq_some {path key : Path} {entries : List (Repository × Nat)} {index : Nat}
    {r : Repository} (h : findContaining? path entries = some (index, r, key)) :
    (r, index) ∈ entries ∧ path.stripStart? r.profilesDirectory = some key ∧ key.text ≠ "" := by
  induction entries with
  | nil => cases h
  | cons entry rest ih =>
    obtain ⟨other, place⟩ := entry
    have hrest : findContaining? path rest = some (index, r, key) →
        (r, index) ∈ (other, place) :: rest ∧
          path.stripStart? r.profilesDirectory = some key ∧ key.text ≠ "" := fun hfound =>
      ⟨List.mem_cons_of_mem _ (ih hfound).1, (ih hfound).2⟩
    rw [findContaining?] at h
    split at h
    · next below hbelow =>
      split at h
      · exact hrest h
      · next hne =>
        cases h
        exact ⟨List.mem_cons_self, hbelow, hne⟩
    · exact hrest h

/-- A path is located in the first repository whose profiles contain its absolute form. -/
theorem locateByPath_eq_ok_iff {path : Path} : s.locateByPath tree path = .ok a ↔
    ∃ index r key, findContaining? (absolutePath tree path) s.repositories.zipIdx =
      some (index, r, key) ∧ addressIn index r key.text = .ok a := by
  unfold locateByPath
  dsimp only
  rcases findContaining? (absolutePath tree path) s.repositories.zipIdx with _ | ⟨index, r, key⟩
  · simp
  · simp

/-- A path leads below the profiles of a repository. -/
theorem liesIn_of_locateByPath {path : Path} (h : s.locateByPath tree path = .ok a) :
    a.LiesIn s := by
  obtain ⟨_, _, _, hfound, haddress⟩ := locateByPath_eq_ok_iff.1 h
  have hmem := (findContaining?_eq_some hfound).1
  exact liesIn_of_addressIn (List.mem_zipIdx_iff_getElem?.1 hmem) haddress

/-- A reference in a parent file leads below the profiles of a repository. -/
theorem liesIn_of_locate {base : Path} {reference : String}
    (h : s.locate tree base reference = .ok a) : a.LiesIn s := by
  unfold locate at h
  split at h
  · exact liesIn_of_locateByName h
  · exact liesIn_of_locateByPath h

end RepositorySet

/-! ## Inheritance -/

namespace Profile

/-- Whether the first profile is the second one or inherits it, at any remove. -/
def Inherits : Profile → Profile → Prop :=
  Relation.ReflTransGen fun p q => q ∈ p.parents

/-- What passes from the parents of a profile to it holds of every profile. -/
theorem parentsInduction {motive : Profile → Prop}
    (h : ∀ name path parents, (∀ p ∈ parents, motive p) → motive (.mk name path parents)) :
    ∀ p, motive p
  | .mk name path parents => h name path parents fun p _ => parentsInduction h p

end Profile

namespace RepositorySet

variable {tree : FileTree} {s : RepositorySet} {p q : Profile} {a : ProfileAddress}
  {depth : Nat} {base : Path} {reference : String}

/-- A profile is read from its directory, which exists: each line of its parent file leads to
the place of the profile that it inherits for this line. -/
structure IsRead (tree : FileTree) (s : RepositorySet) (p : Profile) : Prop where
  isDirectory : tree.isDirectory p.path = true
  parents : ∃ lines, Configuration.readLines tree (p.path.child "parent") = .ok lines ∧
    List.Forall₂ (fun line q => ∃ a, s.locate tree p.path line.2 = .ok a ∧
      q.name = a.name ∧ q.path = a.path) lines p.parents

/-- A profile is loaded from a place.  It is named for the place and has its path, and all that it
inherits is read, at any remove: there is no bound on how deep profiles inherit. -/
structure IsLoadedFrom (tree : FileTree) (s : RepositorySet) (a : ProfileAddress) (p : Profile) :
    Prop where
  name : p.name = a.name
  path : p.path = a.path
  read : ∀ q, p.Inherits q → s.IsRead tree q

/-- How a profile is loaded: its directory exists, and it inherits directly what the given
function loads for the lines of its parent file. -/
theorem loadWith_eq_ok_iff {parent : Path → String → Except Error Profile} {name : String}
    {path : Path} : loadWith parent tree name path = .ok p ↔
      tree.isDirectory path = true ∧ p.name = name ∧ p.path = path ∧
        ∃ lines, Configuration.readLines tree (path.child "parent") = .ok lines ∧
          List.Forall₂ (fun line q => parent path line.2 = .ok q) lines p.parents := by
  obtain ⟨ownName, ownPath, parents⟩ := p
  unfold loadWith
  cases tree.isDirectory path with
  | false => simp
  | true =>
    simp only [if_true, bind_eq_ok_iff, mapM_eq_ok_iff, mapError_eq_ok_iff, true_and]
    constructor
    · rintro ⟨lines, hlines, found, hfound, hself⟩
      cases hself
      exact ⟨rfl, rfl, lines, hlines, hfound⟩
    · rintro ⟨hname, hpath, lines, hlines, hparents⟩
      obtain rfl : ownName = name := hname
      obtain rfl : ownPath = path := hpath
      exact ⟨lines, hlines, parents, hparents, rfl⟩

/-- With a depth left, a reference is followed and what is at its place is loaded. -/
theorem loadParent_succ_eq_ok_iff :
    s.loadParent tree (depth + 1) base reference = .ok p ↔
      ∃ a, s.locate tree base reference = .ok a ∧
        loadWith (s.loadParent tree depth) tree a.name a.path = .ok p :=
  bind_eq_ok_iff

/-- A profile is loaded by name in two steps, the address first. -/
theorem profileOfName_eq_ok_iff {name : String} : s.profileOfName tree name = .ok p ↔
    ∃ a, s.locateByName name = .ok a ∧ s.profileAt tree a = .ok p :=
  bind_eq_ok_iff

/-- A profile is loaded by path in two steps, the address first. -/
theorem profileOfPath_eq_ok_iff {path : Path} : s.profileOfPath tree path = .ok p ↔
    ∃ a, s.locateByPath tree path = .ok a ∧ s.profileAt tree a = .ok p :=
  bind_eq_ok_iff

/-! ## Depth of inheritance -/

/-- A profile is loaded from a place if the profiles that it inherits directly are loaded from
the places of their references. -/
theorem isLoadedFrom_of_loadWith {parent : Path → String → Except Error Profile}
    (h : loadWith parent tree a.name a.path = .ok p)
    (hparent : ∀ base reference q, parent base reference = .ok q →
      ∃ b, s.locate tree base reference = .ok b ∧ s.IsLoadedFrom tree b q) :
    s.IsLoadedFrom tree a p := by
  obtain ⟨hdirectory, hname, hpath, lines, hlines, hparents⟩ := loadWith_eq_ok_iff.1 h
  refine ⟨hname, hpath, fun q hq => ?_⟩
  rcases Relation.ReflTransGen.cases_head hq with rfl | ⟨t, ht, hrest⟩
  · refine ⟨hpath ▸ hdirectory, lines, hpath ▸ hlines, hparents.imp fun line t hload => ?_⟩
    obtain ⟨b, hb, hloaded⟩ := hparent _ _ t hload
    exact ⟨b, hpath ▸ hb, hloaded.name, hloaded.path⟩
  · obtain ⟨line, -, hload⟩ := exists_mem_of_forall₂ hparents.flip ht
    obtain ⟨b, -, hloaded⟩ := hparent _ _ t hload
    exact hloaded.read q hrest

/-- What is loaded for a reference is loaded from the place of this reference. -/
theorem isLoadedFrom_of_loadParent (h : s.loadParent tree depth base reference = .ok p) :
    ∃ a, s.locate tree base reference = .ok a ∧ s.IsLoadedFrom tree a p := by
  induction depth generalizing base reference p with
  | zero => cases h
  | succ depth ih =>
    obtain ⟨a, ha, hload⟩ := loadParent_succ_eq_ok_iff.1 h
    exact ⟨a, ha, isLoadedFrom_of_loadWith hload fun _ _ _ => ih⟩

/-- A loader that finds more parents finds every profile that was found before. -/
theorem loadWith_mono {parent more : Path → String → Except Error Profile} {name : String}
    {path : Path} (hmore : ∀ base reference q, parent base reference = .ok q →
      more base reference = .ok q) (h : loadWith parent tree name path = .ok p) :
    loadWith more tree name path = .ok p := by
  obtain ⟨hdirectory, hname, hpath, lines, hlines, hparents⟩ := loadWith_eq_ok_iff.1 h
  exact loadWith_eq_ok_iff.2 ⟨hdirectory, hname, hpath, lines, hlines,
    hparents.imp fun _ q => hmore _ _ q⟩

/-- What is loaded within a depth is loaded alike within a greater one. -/
theorem loadParent_mono {more : Nat} (hle : depth ≤ more)
    (h : s.loadParent tree depth base reference = .ok p) :
    s.loadParent tree more base reference = .ok p := by
  induction depth generalizing more base reference p with
  | zero => cases h
  | succ depth ih =>
    obtain ⟨a, ha, hload⟩ := loadParent_succ_eq_ok_iff.1 h
    obtain ⟨fewer, rfl⟩ := Nat.exists_eq_add_of_lt hle
    refine loadParent_succ_eq_ok_iff.2 ⟨a, ha, loadWith_mono (fun _ _ q hq => ?_) hload⟩
    exact ih (Nat.le_add_right depth fewer) hq

/-- Profiles that can be loaded within some depth each are all loaded within one depth. -/
theorem exists_depth_of_parents {lines : List (Nat × String)} {parents : List Profile}
    (h : List.Forall₂ (fun line q => ∃ depth, s.loadParent tree depth base line.2 = .ok q) lines
      parents) :
    ∃ depth, List.Forall₂ (fun line q => s.loadParent tree depth base line.2 = .ok q) lines
      parents := by
  induction h with
  | nil => exact ⟨0, .nil⟩
  | cons hfirst _ ih =>
    obtain ⟨own, hown⟩ := hfirst
    obtain ⟨others, hothers⟩ := ih
    exact ⟨max own others, .cons (loadParent_mono (Nat.le_max_left _ _) hown)
      (hothers.imp fun _ _ => loadParent_mono (Nat.le_max_right _ _))⟩

/-- For a profile that is loaded from a place some depth of inheritance is enough. -/
theorem exists_depth_of_isLoadedFrom (h : s.IsLoadedFrom tree a p) :
    ∃ depth, loadWith (s.loadParent tree depth) tree a.name a.path = .ok p := by
  induction p using Profile.parentsInduction generalizing a with
  | _ name path parents ih =>
    obtain ⟨hdirectory, lines, hlines, hparents⟩ := h.read _ .refl
    have hwithin : ∀ q ∈ parents, ∀ b : ProfileAddress, q.name = b.name → q.path = b.path →
        ∃ depth, loadWith (s.loadParent tree depth) tree b.name b.path = .ok q :=
      fun q hq b hname hpath => ih q hq ⟨hname, hpath, fun t ht => h.read t (.head hq ht)⟩
    have hboth := (List.forall₂_and_left _ _).2 ⟨hwithin, hparents.flip⟩
    have hloaded : List.Forall₂ (fun line q => ∃ depth,
        s.loadParent tree depth path line.2 = .ok q) lines parents := by
      refine (hboth.imp ?_).flip
      rintro q line ⟨hq, b, hb, hname, hpath⟩
      obtain ⟨depth, hload⟩ := hq b hname hpath
      exact ⟨depth + 1, loadParent_succ_eq_ok_iff.2 ⟨b, hb, hload⟩⟩
    obtain ⟨depth, hdepth⟩ := exists_depth_of_parents hloaded
    exact ⟨depth, loadWith_eq_ok_iff.2 ⟨h.path ▸ hdirectory, h.name, h.path, lines,
      h.path ▸ hlines, h.path ▸ hdepth⟩⟩

/-- A profile is loaded from a place exactly when it is within some depth of inheritance. -/
theorem isLoadedFrom_iff : s.IsLoadedFrom tree a p ↔
    ∃ depth, loadWith (s.loadParent tree depth) tree a.name a.path = .ok p := by
  refine ⟨exists_depth_of_isLoadedFrom, ?_⟩
  rintro ⟨depth, h⟩
  exact isLoadedFrom_of_loadWith h fun _ _ _ => isLoadedFrom_of_loadParent

/-! ## Places of profiles that are inherited -/

/-- Whether a profile is at some place below the profiles of a repository. -/
def Places (s : RepositorySet) (p : Profile) : Prop :=
  ∃ a : ProfileAddress, a.LiesIn s ∧ p.name = a.name ∧ p.path = a.path

/-- What a profile inherits that is loaded from a place below the profiles of a repository is
below those of one, too. -/
theorem IsLoadedFrom.places (h : s.IsLoadedFrom tree a p) (ha : a.LiesIn s) (hq : p.Inherits q) :
    s.Places q := by
  rcases Relation.ReflTransGen.cases_tail hq with rfl | ⟨t, ht, hparent⟩
  · exact ⟨a, ha, h.name, h.path⟩
  · obtain ⟨lines, -, hparents⟩ := (h.read t ht).parents
    obtain ⟨line, -, b, hb, hname, hpath⟩ := exists_mem_of_forall₂ hparents.flip hparent
    exact ⟨b, liesIn_of_locate hb, hname, hpath⟩

/-- A profile is obtained by its name, by its path or for a line of a parent file, however deep
it inherits. -/
def IsObtained (tree : FileTree) (s : RepositorySet) (p : Profile) : Prop :=
  ∃ a, ((∃ name, s.locateByName name = .ok a) ∨ (∃ path, s.locateByPath tree path = .ok a) ∨
    ∃ base reference, s.locate tree base reference = .ok a) ∧ s.IsLoadedFrom tree a p

/-- A profile loaded by name is one that the set gives. -/
theorem isObtained_of_profileOfName {name : String} (h : s.profileOfName tree name = .ok p) :
    s.IsObtained tree p := by
  obtain ⟨a, ha, hload⟩ := profileOfName_eq_ok_iff.1 h
  exact ⟨a, Or.inl ⟨name, ha⟩, isLoadedFrom_iff.2 ⟨_, hload⟩⟩

/-- A profile loaded by path is one that the set gives. -/
theorem isObtained_of_profileOfPath {path : Path} (h : s.profileOfPath tree path = .ok p) :
    s.IsObtained tree p := by
  obtain ⟨a, ha, hload⟩ := profileOfPath_eq_ok_iff.1 h
  exact ⟨a, Or.inr (Or.inl ⟨path, ha⟩), isLoadedFrom_iff.2 ⟨_, hload⟩⟩

/-- A profile loaded through the line of a parent file is one that the set gives, at any depth. -/
theorem isObtained_of_loadParent (h : s.loadParent tree depth base reference = .ok p) :
    s.IsObtained tree p := by
  obtain ⟨a, ha, hloaded⟩ := isLoadedFrom_of_loadParent h
  exact ⟨a, Or.inr (Or.inr ⟨base, reference, ha⟩), hloaded⟩

/-- Whatever a loaded profile inherits has its place below the profiles of some repository of the
set. -/
theorem IsObtained.places (h : s.IsObtained tree p) (hq : p.Inherits q) : s.Places q := by
  obtain ⟨a, hlocated, hloaded⟩ := h
  refine hloaded.places ?_ hq
  rcases hlocated with ⟨name, hname⟩ | ⟨path, hpath⟩ | ⟨base, reference, hline⟩
  · exact liesIn_of_locateByName hname
  · exact liesIn_of_locateByPath hpath
  · exact liesIn_of_locate hline

/-- No reference leads out of the profiles of the repositories.  Every profile that is obtained
by its name, by its path or for a line of a parent file, and every profile that it inherits at
any remove, lies in a directory below the profiles of a repository on a path over names only,
and its name is that of the repository and this path.  Loading within a depth is a case of this;
how deep profiles inherit does not count. -/
theorem profiles_lieBelow (h : (∃ name, s.profileOfName tree name = .ok p) ∨
      (∃ path, s.profileOfPath tree path = .ok p) ∨
      (∃ depth base reference, s.loadParent tree depth base reference = .ok p) ∨
      s.IsObtained tree p)
    (hq : p.Inherits q) :
    ∃ r ∈ s.repositories, ∃ (key : Path) (names : List String),
      key.components = names.map .normal ∧ key.clean = key ∧
      q.path = r.profilesDirectory.join key ∧
      q.path.components = r.profilesDirectory.components ++ names.map .normal ∧
      q.name = r.name ++ ":" ++ key.text := by
  have hobtained : s.IsObtained tree p := by
    rcases h with ⟨name, hname⟩ | ⟨path, hpath⟩ | ⟨depth, base, reference, hparent⟩ | hobtained
    · exact isObtained_of_profileOfName hname
    · exact isObtained_of_profileOfPath hpath
    · exact isObtained_of_loadParent hparent
    · exact hobtained
  obtain ⟨a, ha, hname, hpath⟩ := hobtained.places hq
  obtain ⟨names, hnames⟩ := ha.isDownward
  refine ⟨a.repository, List.mem_of_getElem? ha.isListed, a.key, names, hnames, ha.clean_key,
    hpath, ?_, hname⟩
  rw [hpath, ProfileAddress.path, ha.isDownward.components_join, hnames]

/-- Two repositories in one directory.  The profile {lit}`main` of the second one inherits a
profile of the first by name and one of its own by a path through a parent. -/
def boardTree : FileTree where
  root := .directory [
    ("base", .directory [("profiles", .directory [
      ("linux", .directory [("amd64", .directory [])])])]),
    ("board", .directory [("profiles", .directory [
      ("main", .directory [("parent", .file (.text "base:linux//./amd64\n..//extra/.\n"))]),
      ("extra", .directory [])])])]
  workingDirectory := ⟨"/"⟩

def boardRepositories : RepositorySet :=
  ⟨[⟨⟨"/base"⟩, "base", "0"⟩, ⟨⟨"/board"⟩, "board", "0"⟩]⟩

def extraProfile : Profile :=
  .mk "board:extra" ⟨"/board/profiles/extra"⟩ []

def mainProfile : Profile :=
  .mk "board:main" ⟨"/board/profiles/main"⟩
    [.mk "base:linux/amd64" ⟨"/base/profiles/linux/amd64"⟩ [], extraProfile]

/-- The place of the profile that inherits the others. -/
def mainAddress : ProfileAddress := ⟨1, ⟨⟨"/board"⟩, "board", "0"⟩, ⟨"main"⟩⟩

theorem profileAt_mainAddress :
    boardRepositories.profileAt boardTree mainAddress = .ok mainProfile := by
  have hlines : Configuration.readLines boardTree (mainAddress.path.child "parent") =
      .ok [(1, "base:linux//./amd64"), (2, "..//extra/.")] := rfl
  have hamd64 : boardRepositories.locate boardTree mainAddress.path "base:linux//./amd64" =
      .ok ⟨0, ⟨⟨"/base"⟩, "base", "0"⟩, ⟨"linux/amd64"⟩⟩ := rfl
  have hextra : boardRepositories.locate boardTree mainAddress.path "..//extra/." =
      .ok ⟨1, ⟨⟨"/board"⟩, "board", "0"⟩, ⟨"extra"⟩⟩ := rfl
  rw [profileAt, loadProfile, loadWith_eq_ok_iff]
  refine ⟨rfl, rfl, rfl, _, hlines, .cons ?_ (.cons ?_ .nil)⟩
  · rw [maxInheritance, loadParent_succ_eq_ok_iff]
    refine ⟨_, hamd64, ?_⟩
    rw [loadWith_eq_ok_iff]
    exact ⟨rfl, rfl, rfl, [], rfl, .nil⟩
  · rw [maxInheritance, loadParent_succ_eq_ok_iff]
    refine ⟨_, hextra, ?_⟩
    rw [loadWith_eq_ok_iff]
    exact ⟨rfl, rfl, rfl, [], rfl, .nil⟩

/-- A profile that another inherits by a path with dots and slashes. -/
theorem mainProfile_lieBelow :
    boardRepositories.profileOfName boardTree "board:extra/.././main/" = .ok mainProfile ∧
      mainProfile.Inherits extraProfile ∧
      ∃ r ∈ boardRepositories.repositories, ∃ (key : Path) (names : List String),
        key.components = names.map .normal ∧ key.clean = key ∧
        extraProfile.path = r.profilesDirectory.join key ∧
        extraProfile.path.components = r.profilesDirectory.components ++ names.map .normal ∧
        extraProfile.name = r.name ++ ":" ++ key.text := by
  have hname : boardRepositories.locateByName "board:extra/.././main/" = .ok mainAddress := rfl
  have hmain : boardRepositories.profileOfName boardTree "board:extra/.././main/" =
      .ok mainProfile := profileOfName_eq_ok_iff.2 ⟨_, hname, profileAt_mainAddress⟩
  have hinherits : mainProfile.Inherits extraProfile :=
    .single (List.mem_cons_of_mem _ List.mem_cons_self)
  exact ⟨hmain, hinherits, profiles_lieBelow (Or.inl ⟨_, hmain⟩) hinherits⟩

end RepositorySet
end EbuildGraph
