import EbuildGraph.Proofs.Repository.Profiles
import EbuildGraph.Proofs.Text.Split

/-!
# Profiles by name and by path

The path of a profile that was found by its name leads back to it if the directory of the
repository was given from the root and without steps to a parent.  Other spellings of that
directory are never found again, since the path that is looked for is absolute and cleaned, and
is compared with the directories as they were given.  Relative references in parent files lead
where the references by name do under the same condition.

Main definitions:

- {lit}`RepositorySet.HaveSeparateProfiles`: whether no profiles lie in those of another
  repository.

Main results:

- Theorem {lit}`RepositorySet.locateByPath_of_components`: the paths that lead to a place.
- Theorem {lit}`RepositorySet.components_of_locateByPath`: the place that a path leads to has the
  components of the path.
- Theorem {lit}`RepositorySet.profileOfPath_inverts_iff`: when a profile is found again by its path,
  and when relative references in its parent file lead where those by name do.
-/

namespace EbuildGraph

/-! ## Directories of profiles -/

theorem Repository.components_profilesDirectory (r : Repository) :
    r.profilesDirectory.components = r.root.components ++ [.normal "profiles"] := by
  have hname : Path.IsComponentName "profiles" :=
    ⟨by decide, by decide, by decide, by decide⟩
  rw [profilesDirectory, Path.child, (Path.isDownward_name hname).components_join,
    Path.components_name hname]

theorem Repository.isRooted_profilesDirectory_iff {r : Repository} :
    r.profilesDirectory.IsRooted ↔ r.root.IsRooted := by
  have hcomponents := r.components_profilesDirectory
  constructor
  · intro h
    refine h.of_isPrefix ⟨_, hcomponents.symm⟩ fun hnone => ?_
    obtain ⟨names, hnames⟩ := h
    simp [hcomponents, hnone] at hnames
  · rintro ⟨names, hnames⟩
    exact ⟨names ++ ["profiles"], by simp [hcomponents, hnames]⟩

/-- The path of an address is its key below the profiles of its repository. -/
theorem ProfileAddress.LiesIn.components_path {a : ProfileAddress} {s : RepositorySet}
    (ha : a.LiesIn s) :
    a.path.components = a.repository.profilesDirectory.components ++ a.key.components :=
  ha.isDownward.components_join _

/-- A place is on a path over names from the root if the repository is. -/
theorem ProfileAddress.LiesIn.isRooted_path_iff {a : ProfileAddress} {s : RepositorySet}
    (ha : a.LiesIn s) : a.path.IsRooted ↔ a.repository.root.IsRooted := by
  have hcomponents := ha.components_path
  rw [← Repository.isRooted_profilesDirectory_iff]
  constructor
  · intro h
    refine h.of_isPrefix ⟨_, hcomponents.symm⟩ ?_
    simp [Repository.components_profilesDirectory]
  · rintro ⟨front, hfront⟩
    obtain ⟨names, hnames⟩ := ha.isDownward
    exact ⟨front ++ names, by simp [hcomponents, hfront, hnames]⟩

namespace RepositorySet

variable {tree : FileTree} {s : RepositorySet} {a b : ProfileAddress}

/-- A path is taken from the working directory and then cleaned. -/
theorem absolutePath_eq (path : Path) :
    absolutePath tree path = (tree.workingDirectory.join path).clean := by
  unfold absolutePath Path.join
  cases path.isAbsolute <;> rfl

/-- The absolute form of a path has no parent steps left. -/
theorem isRooted_absolutePath (hworking : tree.workingDirectory.isAbsolute = true) (path : Path) :
    (absolutePath tree path).IsRooted := by
  rw [absolutePath_eq]
  apply Path.isRooted_clean
  cases hpath : path.isAbsolute with
  | true => rwa [Path.join, if_pos hpath]
  | false => rwa [Path.isAbsolute_join _ hpath]

/-- A rooted path is its own absolute form, component by component. -/
theorem components_absolutePath (tree : FileTree) {path : Path} (h : path.IsRooted) :
    (absolutePath tree path).components = path.components := by
  rw [absolutePath, if_pos h.isAbsolute_eq_true, h.components_clean]

/-- Whether the profiles of no repository lie in those of another. -/
def HaveSeparateProfiles (tree : FileTree) (s : RepositorySet) : Prop :=
  s.repositories.Pairwise fun r other =>
    ¬(absolutePath tree r.profilesDirectory).components <+:
        (absolutePath tree other.profilesDirectory).components ∧
      ¬(absolutePath tree other.profilesDirectory).components <+:
        (absolutePath tree r.profilesDirectory).components

/-- Where profiles are separate, those that lie in others are of the same repository. -/
theorem HaveSeparateProfiles.index_eq (h : s.HaveSeparateProfiles tree) {i j : Nat}
    {r other : Repository} (hr : s.repositories[i]? = some r)
    (hother : s.repositories[j]? = some other) (hrooted : r.profilesDirectory.IsRooted)
    (hotherRooted : other.profilesDirectory.IsRooted)
    (hbegins : r.profilesDirectory.components <+: other.profilesDirectory.components) : i = j := by
  obtain ⟨hi, rfl⟩ := List.getElem?_eq_some_iff.1 hr
  obtain ⟨hj, rfl⟩ := List.getElem?_eq_some_iff.1 hother
  rw [← components_absolutePath tree hrooted,
    ← components_absolutePath tree hotherRooted] at hbegins
  rcases Nat.lt_trichotomy i j with hlt | heq | hgt
  · exact absurd hbegins (List.pairwise_iff_getElem.1 h i j hi hj hlt).1
  · exact heq
  · exact absurd hbegins (List.pairwise_iff_getElem.1 h j i hj hi hgt).2

/-- Where profiles are separate, places on paths of the same components are the same. -/
theorem HaveSeparateProfiles.eq_of_components (h : s.HaveSeparateProfiles tree)
    (ha : a.LiesIn s) (hb : b.LiesIn s) (haRooted : a.repository.root.IsRooted)
    (hbRooted : b.repository.root.IsRooted) (hcomponents : a.path.components = b.path.components) :
    a = b := by
  have haProfiles := Repository.isRooted_profilesDirectory_iff.2 haRooted
  have hbProfiles := Repository.isRooted_profilesDirectory_iff.2 hbRooted
  rw [ha.components_path, hb.components_path] at hcomponents
  -- Of two beginnings of one path, one is a beginning of the other.
  have hindex : a.index = b.index := by
    rcases List.prefix_or_prefix_of_prefix ⟨_, hcomponents⟩ (List.prefix_append _ _) with hab | hba
    · exact h.index_eq ha.isListed hb.isListed haProfiles hbProfiles hab
    · exact (h.index_eq hb.isListed ha.isListed hbProfiles haProfiles hba).symm
  have hrepository : a.repository = b.repository := by
    have hlisted := ha.isListed
    rw [hindex, hb.isListed] at hlisted
    exact (Option.some.inj hlisted).symm
  have hkey : a.key = b.key := by
    rw [hrepository] at hcomponents
    have hclean := Path.clean_of_components (List.append_cancel_left hcomponents)
    exact ha.clean_key.symm.trans (hclean.trans hb.clean_key)
  cases a
  cases b
  rw [ProfileAddress.mk.injEq]
  exact ⟨hindex, hrepository, hkey⟩

/-! ## Looking for a path -/

/-- Some repository is found where the profiles of one contain the path. -/
theorem exists_findContaining? {path key : Path} {entries : List (Repository × Nat)}
    {entry : Repository × Nat} (hmem : entry ∈ entries)
    (hkey : path.stripStart? entry.1.profilesDirectory = some key) (hne : key.text ≠ "") :
    ∃ found, findContaining? path entries = some found := by
  induction entries with
  | nil => cases hmem
  | cons other rest ih =>
    rw [findContaining?]
    rcases List.mem_cons.1 hmem with rfl | hrest
    · simp only [hkey, if_neg hne]
      exact ⟨_, rfl⟩
    · split
      · split
        · exact ih hrest
        · exact ⟨_, rfl⟩
      · exact ih hrest

/-- Slashes at the end of a relative reference make no difference after cleaning. -/
theorem clean_withoutEndSlashes {p : Path} (h : p.isAbsolute = false) :
    (withoutEndSlashes p.text).clean = p.clean :=
  Path.clean_of_components (Path.components_dropEndWhile_slash h)

/-- A path over names leads to the place that is its cleaned form. -/
theorem addressIn_of_isDownward (index : Nat) (r : Repository) {below : Path}
    (h : below.IsDownward) :
    addressIn index r below.text = .ok ⟨index, r, below.clean⟩ := by
  rw [addressIn_eq_ok_iff, clean_withoutEndSlashes h.isAbsolute_eq_false]
  exact ⟨h.clean, rfl, rfl, rfl⟩

section WorkingDirectory

variable (hworking : tree.workingDirectory.isAbsolute = true) {path : Path}
include hworking

/-- The path below the profiles that contain a path leads over names only. -/
theorem isDownward_of_findContaining? {index : Nat} {r : Repository} {key : Path}
    (h : findContaining? (absolutePath tree path) s.repositories.zipIdx = some (index, r, key)) :
    key.IsDownward := by
  have hstrip := (findContaining?_eq_some h).2.1
  refine (isRooted_absolutePath hworking path).isDownward_of_append ?_
    (Path.components_stripStart hstrip)
  simp [Repository.components_profilesDirectory]

/-- A path that leads to a place has the components of the place, which is not the directory of
all profiles itself. -/
theorem components_of_locateByPath (h : s.locateByPath tree path = .ok a) :
    a.path.components = (absolutePath tree path).components ∧ a.key.text ≠ "" := by
  have hin := liesIn_of_locateByPath h
  obtain ⟨index, r, key, hfound, haddress⟩ := locateByPath_eq_ok_iff.1 h
  have hdown := isDownward_of_findContaining? hworking hfound
  obtain ⟨-, hstrip, hne⟩ := findContaining?_eq_some hfound
  rw [addressIn_of_isDownward index r hdown] at haddress
  obtain rfl := Except.ok.inj haddress
  have hkey : key.clean.components = key.components := hdown.components_clean
  refine ⟨?_, fun hempty => hne ((Path.text_eq_empty_of_components hkey).1 hempty)⟩
  rw [hin.components_path, hkey, Path.components_stripStart hstrip]

/-- Where a path leads is on a path over names from the root. -/
theorem isRooted_of_locateByPath (h : s.locateByPath tree path = .ok a) :
    a.repository.root.IsRooted := by
  rw [← (liesIn_of_locateByPath h).isRooted_path_iff]
  obtain ⟨names, hnames⟩ := isRooted_absolutePath hworking path
  exact ⟨names, (components_of_locateByPath hworking h).1.trans hnames⟩

/-- A path leads to the place that has its components, if that is on a path over names from the
root. -/
theorem locateByPath_of_components (hseparate : s.HaveSeparateProfiles tree) (ha : a.LiesIn s)
    (hne : a.key.text ≠ "") (hrooted : a.repository.root.IsRooted)
    (hpath : (absolutePath tree path).components = a.path.components) :
    s.locateByPath tree path = .ok a := by
  have hcomponents := hpath.trans ha.components_path
  obtain ⟨below, hbelow⟩ := Path.exists_stripStart ⟨_, hcomponents.symm⟩
  have hkey : below.components = a.key.components :=
    List.append_cancel_left ((Path.components_stripStart hbelow).trans hcomponents)
  have hmem : (a.repository, a.index) ∈ s.repositories.zipIdx :=
    List.mem_zipIdx_iff_getElem?.2 ha.isListed
  obtain ⟨⟨index, r, key⟩, hfound⟩ := exists_findContaining? hmem hbelow
    fun hempty => hne ((Path.text_eq_empty_of_components hkey).1 hempty)
  have hlocated : s.locateByPath tree path = .ok ⟨index, r, key.clean⟩ :=
    locateByPath_eq_ok_iff.2 ⟨index, r, key, hfound,
      addressIn_of_isDownward index r (isDownward_of_findContaining? hworking hfound)⟩
  rw [hlocated, hseparate.eq_of_components (liesIn_of_locateByPath hlocated) ha
    (isRooted_of_locateByPath hworking hlocated) hrooted
    ((components_of_locateByPath hworking hlocated).1.trans hpath)]

end WorkingDirectory

/-! ## Names within a repository -/

/-- The repository that a name leads to is the one that its name finds. -/
theorem find?_of_locateByName {name : String} (h : s.locateByName name = .ok a) :
    s.find? a.repository.name = some (a.index, a.repository) ∧
      ':' ∉ a.repository.name.toList := by
  obtain ⟨repository, reference, index, r, hcut, hfind, haddress⟩ := locateByName_eq_ok_iff.1 h
  obtain ⟨-, rfl, rfl, -⟩ := addressIn_eq_ok_iff.1 haddress
  obtain rfl : a.repository.name = repository := (find?_eq_some hfind).2
  exact ⟨hfind, Text.not_mem_of_cut hcut⟩

/-- A name in the repository of a place that a name leads to is a reference within it. -/
theorem locateByName_sibling {name reference : String} (h : s.locateByName name = .ok a) :
    s.locateByName (a.repository.name ++ ":" ++ reference) =
      addressIn a.index a.repository reference := by
  obtain ⟨hfind, hcolon⟩ := find?_of_locateByName h
  have hcut : Text.cut ':' (a.repository.name ++ ":" ++ reference) =
      some (a.repository.name, reference) := by
    refine Text.cut_eq_some ?_ hcolon
    simp
  unfold locateByName
  rw [hcut]
  simp only [hfind]

/-- Behind the directory of a place, a relative reference leads on below the profiles as it does
behind the path of the place there. -/
theorem components_absolutePath_child (ha : a.LiesIn s) (hrooted : a.repository.root.IsRooted)
    {reference : String} (hrelative : (⟨reference⟩ : Path).isAbsolute = false)
    (hdown : (a.key.child reference).clean.IsDownward) :
    (absolutePath tree (a.path.child reference)).components =
      a.repository.profilesDirectory.components ++ (a.key.child reference).clean.components := by
  have hpath : a.path.IsRooted := ha.isRooted_path_iff.2 hrooted
  have habsolute : (a.path.child reference).isAbsolute = true := by
    rw [Path.child, Path.isAbsolute_join _ hrelative, hpath.isAbsolute_eq_true]
  have hroot : .root ∉ (⟨reference⟩ : Path).components := Path.root_not_mem_components hrelative
  obtain ⟨front, hfront⟩ := ha.isDownward
  have hkept : (a.key.child reference).keptSteps =
      (⟨reference⟩ : Path).components.foldl Path.cleanStep (front.reverse.map .normal) := by
    rw [Path.child, Path.keptSteps_join _ hrelative, ha.isDownward.keptSteps_eq, hfront,
      List.map_reverse]
  have hparent : .parent ∉
      (⟨reference⟩ : Path).components.foldl Path.cleanStep (front.reverse.map .normal) := by
    obtain ⟨names, hnames⟩ := hdown
    rw [← hkept, ← List.mem_reverse, ← Path.components_clean, hnames]
    simp
  rw [absolutePath, if_pos habsolute, Path.components_clean, Path.components_clean, hkept,
    Path.child, Path.keptSteps_join _ hrelative, hpath.keptSteps_eq, ha.components_path,
    List.reverse_append, hfront, ← List.map_reverse, Path.foldl_cleanStep_append hroot hparent,
    List.reverse_append, List.reverse_reverse]

/-- A relative reference leads where the one by name does if the repository is given from the root
and without steps to a parent, and otherwise not. -/
theorem locate_eq_ok_iff_isRooted (hworking : tree.workingDirectory.isAbsolute = true)
    (hseparate : s.HaveSeparateProfiles tree) {name reference : String}
    (ha : s.locateByName name = .ok a) (hrelative : (⟨reference⟩ : Path).isAbsolute = false)
    (hcolon : ':' ∉ reference.toList)
    (hb : s.locateByName (a.repository.name ++ ":" ++ (a.key.child reference).text) = .ok b)
    (hne : b.key.text ≠ "") :
    s.locate tree a.path reference = .ok b ↔ a.repository.root.IsRooted := by
  have hin := liesIn_of_locateByName ha
  rw [locateByName_sibling ha, addressIn_eq_ok_iff] at hb
  obtain ⟨hdown, hindex, hrepository, hkey⟩ := hb
  have hlocate : s.locate tree a.path reference =
      s.locateByPath tree (a.path.child reference) := by
    rw [locate, if_neg (by simpa using hcolon)]
  rw [hlocate, ← hrepository]
  refine ⟨isRooted_of_locateByPath hworking, fun hrooted => ?_⟩
  have hjoined : (a.key.child reference).isAbsolute = false := by
    rw [Path.child, Path.isAbsolute_join _ hrelative, hin.isDownward.isAbsolute_eq_false]
  rw [clean_withoutEndSlashes hjoined] at hdown hkey
  have hplace : b.LiesIn s := by
    refine ⟨?_, hkey ▸ hdown, ?_⟩
    · rw [hindex, hrepository]
      exact hin.isListed
    · rw [hkey]
      exact Path.clean_clean _
  refine locateByPath_of_components hworking hseparate hplace hne hrooted ?_
  rw [components_absolutePath_child hin (hrepository ▸ hrooted) hrelative hdown,
    hplace.components_path, hrepository, hkey]

/-- The path of a profile that was found by its name leads back to it, unless it is the directory
of all profiles or the repository is given from the working directory or with steps to a parent.
Under the same condition on the repository, relative references in the parent file of the profile
lead where the references by name do. -/
theorem profileOfPath_inverts_iff (hworking : tree.workingDirectory.isAbsolute = true)
    (hseparate : s.HaveSeparateProfiles tree) {name : String} {p : Profile}
    (ha : s.locateByName name = .ok a) (hp : s.profileOfName tree name = .ok p) :
    ((∃ q, s.profileOfPath tree p.path = .ok q ∧ q.name = p.name ∧ q.path.same p.path = true) ↔
      a.key.text ≠ "" ∧ a.repository.root.IsRooted) ∧
    ∀ reference b, (⟨reference⟩ : Path).isAbsolute = false → ':' ∉ reference.toList →
      s.locateByName (a.repository.name ++ ":" ++ (a.key.child reference).text) = .ok b →
      b.key.text ≠ "" →
      (s.locate tree p.path reference = .ok b ↔ a.repository.root.IsRooted) := by
  have hin := liesIn_of_locateByName ha
  have hload : s.profileAt tree a = .ok p := by
    obtain ⟨found, hfound, hload⟩ := profileOfName_eq_ok_iff.1 hp
    cases ha.symm.trans hfound
    exact hload
  obtain ⟨-, -, hpath, -⟩ := loadWith_eq_ok_iff.1 hload
  refine ⟨⟨?_, ?_⟩, ?_⟩
  · rintro ⟨q, hq, -, hsame⟩
    obtain ⟨b, hb, hloadq⟩ := profileOfPath_eq_ok_iff.1 hq
    obtain ⟨-, -, hqpath, -⟩ := loadWith_eq_ok_iff.1 hloadq
    have hbin := liesIn_of_locateByPath hb
    have hbrooted := isRooted_of_locateByPath hworking hb
    have hcomponents : b.path.components = a.path.components := by
      rw [← hqpath, ← hpath]
      exact eq_of_beq hsame
    have hrooted : a.repository.root.IsRooted := by
      rw [← hin.isRooted_path_iff, Path.IsRooted, ← hcomponents]
      exact hbin.isRooted_path_iff.2 hbrooted
    obtain rfl := hseparate.eq_of_components hbin hin hbrooted hrooted hcomponents
    exact ⟨(components_of_locateByPath hworking hb).2, hrooted⟩
  · rintro ⟨hne, hrooted⟩
    refine ⟨p, profileOfPath_eq_ok_iff.2 ⟨a, ?_, hload⟩, rfl, beq_self_eq_true _⟩
    refine locateByPath_of_components hworking hseparate hin hne hrooted ?_
    rw [hpath]
    exact components_absolutePath tree (hin.isRooted_path_iff.2 hrooted)
  · intro reference b hrelative hcolon hb hne
    rw [hpath]
    exact locate_eq_ok_iff_isRooted hworking hseparate ha hrelative hcolon hb hne

/-- The sample repositories keep their profiles in directories of their own. -/
theorem haveSeparateProfiles_board : boardRepositories.HaveSeparateProfiles boardTree := by
  have hbase : (absolutePath boardTree ⟨"/base/profiles"⟩).components =
      [.root, .normal "base", .normal "profiles"] := rfl
  have hboard : (absolutePath boardTree ⟨"/board/profiles"⟩).components =
      [.root, .normal "board", .normal "profiles"] := rfl
  refine List.pairwise_pair.2 ⟨fun hbegins => ?_, fun hbegins => ?_⟩
  · have hlists : [Path.Component.root, .normal "base", .normal "profiles"] <+:
        [.root, .normal "board", .normal "profiles"] := hbase ▸ hboard ▸ hbegins
    simp at hlists
  · have hlists : [Path.Component.root, .normal "board", .normal "profiles"] <+:
        [.root, .normal "base", .normal "profiles"] := hbase ▸ hboard ▸ hbegins
    simp at hlists

/-- A profile that is found again by its path, with a relative reference in its parent file. -/
theorem profileOfPath_inverts_mainProfile :
    boardTree.workingDirectory.isAbsolute = true ∧
      boardRepositories.HaveSeparateProfiles boardTree ∧
      boardRepositories.locateByName "board:main" = .ok mainAddress ∧
      boardRepositories.profileOfName boardTree "board:main" = .ok mainProfile ∧
      (∃ q, boardRepositories.profileOfPath boardTree mainProfile.path = .ok q ∧
        q.name = mainProfile.name ∧ q.path.same mainProfile.path = true) ∧
      boardRepositories.locate boardTree mainProfile.path "..//extra/." =
        .ok ⟨1, ⟨⟨"/board"⟩, "board", "0"⟩, ⟨"extra"⟩⟩ := by
  have hname : boardRepositories.locateByName "board:main" = .ok mainAddress := rfl
  have hmain : boardRepositories.profileOfName boardTree "board:main" = .ok mainProfile :=
    profileOfName_eq_ok_iff.2 ⟨_, hname, profileAt_mainAddress⟩
  have hrooted : mainAddress.repository.root.IsRooted := ⟨["board"], rfl⟩
  obtain ⟨hprofile, hreferences⟩ :=
    profileOfPath_inverts_iff rfl haveSeparateProfiles_board hname hmain
  exact ⟨rfl, haveSeparateProfiles_board, hname, hmain, hprofile.2 ⟨by decide, hrooted⟩,
    (hreferences "..//extra/." _ rfl (by decide) rfl (by decide)).2 hrooted⟩

/-- A repository that is given from the working directory. -/
def localRepositories : RepositorySet :=
  ⟨[⟨⟨"board"⟩, "board", "0"⟩]⟩

/-- The path of a profile leads nowhere, though its repository is the only one. -/
theorem profileOfPath_misses_localProfile :
    boardTree.workingDirectory.isAbsolute = true ∧
      localRepositories.HaveSeparateProfiles boardTree ∧
      localRepositories.profileOfName boardTree "board:extra" =
        .ok (.mk "board:extra" ⟨"board/profiles/extra"⟩ []) ∧
      localRepositories.profileOfPath boardTree ⟨"board/profiles/extra"⟩ =
        .error (.profile (.unknownPath ⟨"/board/profiles/extra"⟩)) := by
  refine ⟨rfl, List.pairwise_singleton _ _, ?_, rfl⟩
  refine profileOfName_eq_ok_iff.2
    ⟨⟨0, ⟨⟨"board"⟩, "board", "0"⟩, ⟨"extra"⟩⟩, rfl, ?_⟩
  rw [profileAt, loadProfile, loadWith_eq_ok_iff]
  exact ⟨rfl, rfl, rfl, [], rfl, .nil⟩

end RepositorySet
end EbuildGraph
