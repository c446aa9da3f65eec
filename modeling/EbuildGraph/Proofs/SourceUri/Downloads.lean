import EbuildGraph.Proofs.Success
import EbuildGraph.Proofs.Text.Runs
import EbuildGraph.Proofs.Text.Split
import EbuildGraph.SourceUri.Files

/-!
# The addresses that hold, by file name

Addresses stand at the leaves of a source expression, in groups and under conditions on USE
flags.  Going through the expression from left to right, and into those conditional groups only
whose condition holds, meets exactly the addresses all of whose conditions hold.  Each goes to the
file that it is stored as, and an address that no file name can be told from ends the search.

Main definitions:

- {lit}`IsFileNameOf`: the file name in an address, told without reading the address.
- {lit}`placedUris`: the addresses of an expression with the conditions around each of them.
- {lit}`activeUris`: the addresses whose conditions all hold.

Main results:

- Theorem {lit}`fileNameOfUrl_eq_ok_iff`: which name is read from an address.
- Theorem {lit}`downloads_eq`: the search through the tree takes the active addresses in order.
- Theorem {lit}`downloads_groups_active`: when files are found, and which addresses each of
  them has.
-/

namespace EbuildGraph
namespace SourceUri

/-! ## File names in addresses -/

/-- A text is the file name in an address: it follows the last slash before any query or fragment,
and it is not empty. -/
def IsFileNameOf (name url : String) : Prop :=
  name ≠ "" ∧ '/' ∉ name.toList ∧ ∃ front rest,
    url.toList = front ++ '/' :: (name.toList ++ rest) ∧
      (∀ c ∈ front ++ name.toList, c ≠ '?' ∧ c ≠ '#') ∧ ∀ c ∈ rest.head?, c = '?' ∨ c = '#'

/-- Whether a character of an address comes before its query and its fragment. -/
def isPathChar (c : Char) : Bool :=
  c != '?' && c != '#'

theorem isPathChar_eq_true_iff {c : Char} : isPathChar c = true ↔ c ≠ '?' ∧ c ≠ '#' := by
  simp [isPathChar]

theorem isPathChar_eq_false_iff {c : Char} : isPathChar c = false ↔ c = '?' ∨ c = '#' := by
  by_cases hquestion : c = '?' <;> by_cases hhash : c = '#' <;>
    simp [isPathChar, hquestion, hhash]

/-- The path of an address is what comes before its query and its fragment. -/
theorem exists_path (url : String) : ∃ rest, url.toList = url.toList.takeWhile isPathChar ++ rest ∧
    ∀ c ∈ rest.head?, c = '?' ∨ c = '#' := by
  refine ⟨url.toList.dropWhile isPathChar, List.takeWhile_append_dropWhile.symm, fun c hc => ?_⟩
  have hhead := List.head?_dropWhile_not isPathChar url.toList
  rw [Option.mem_def.1 hc] at hhead
  exact isPathChar_eq_false_iff.1 (by simpa using hhead)

/-- The name that is read from an address is the file name in it. -/
theorem fileNameOfUrl_eq_ok_iff {url name : String} :
    fileNameOfUrl url = .ok name ↔ IsFileNameOf name url := by
  have hread : fileNameOfUrl url =
      let path := url.toList.takeWhile isPathChar
      let last := (path.reverse.takeWhile (· != '/')).reverse
      if path.contains '/' && !last.isEmpty then .ok (String.ofList last)
      else .error (.sourceUriName url) := rfl
  rw [hread]
  dsimp only
  constructor
  · intro h
    split at h
    case isFalse => cases h
    case isTrue hnamed =>
    obtain ⟨hslash, hlast⟩ := Bool.and_eq_true_iff.1 hnamed
    obtain ⟨back, front, hback, hfree⟩ :=
      List.eq_append_cons_of_mem (List.mem_reverse.2 (List.contains_iff_mem.1 hslash))
    have hpath : url.toList.takeWhile isPathChar = front.reverse ++ '/' :: back.reverse := by
      rw [← List.reverse_reverse (url.toList.takeWhile isPathChar), hback]
      simp
    have hname : '/' ∉ back.reverse := fun hmem => hfree (List.mem_reverse.1 hmem)
    rw [hpath, Text.reverse_takeWhile_reverse hname] at h hlast
    obtain rfl := Except.ok.inj h
    obtain ⟨rest, hurl, hrest⟩ := exists_path url
    refine ⟨?_, by rwa [String.toList_ofList], front.reverse, rest, ?_, fun c hc => ?_, hrest⟩
    · intro hempty
      rw [← String.toList_inj, String.toList_ofList] at hempty
      simp [hempty] at hlast
    · rw [String.toList_ofList, hurl, hpath, List.append_assoc, List.cons_append]
    · have hmem : c ∈ url.toList.takeWhile isPathChar := by
        rw [String.toList_ofList] at hc
        rw [hpath]
        simp only [List.mem_append, List.mem_cons] at hc ⊢
        exact hc.imp_right Or.inr
      exact isPathChar_eq_true_iff.1 (List.all_eq_true.1 List.all_takeWhile c hmem)
  · rintro ⟨hne, hslash, front, rest, hurl, hplain, hrest⟩
    have hpath : url.toList.takeWhile isPathChar = front ++ '/' :: name.toList := by
      have hsplit : url.toList = (front ++ '/' :: name.toList) ++ rest := by
        rw [hurl, List.append_assoc, List.cons_append]
      rw [hsplit]
      refine Text.takeWhile_append_of_head (fun c hc => ?_) fun c hc =>
        isPathChar_eq_false_iff.2 (hrest c hc)
      rcases List.mem_append.1 hc with hc | hc
      · exact isPathChar_eq_true_iff.2 (hplain c (List.mem_append_left _ hc))
      · rcases List.mem_cons.1 hc with rfl | hc
        · decide
        · exact isPathChar_eq_true_iff.2 (hplain c (List.mem_append_right _ hc))
    rw [hpath, Text.reverse_takeWhile_reverse hslash]
    simp [hne]

/-- An address without a file name is reported with the address itself. -/
theorem eq_of_fileNameOfUrl_eq_error {url : String} {err : Error}
    (h : fileNameOfUrl url = .error err) : err = .sourceUriName url := by
  unfold fileNameOfUrl at h
  dsimp only at h
  split at h
  · cases h
  · exact (Except.error.inj h).symm

/-- Where no name can be told from an address, the address is what the failure names. -/
theorem fileNameOfUrl_eq_error_iff {url : String} {err : Error} :
    fileNameOfUrl url = .error err ↔
      (∀ name, ¬IsFileNameOf name url) ∧ err = .sourceUriName url := by
  constructor
  · intro h
    refine ⟨fun name hname => ?_, eq_of_fileNameOfUrl_eq_error h⟩
    rw [fileNameOfUrl_eq_ok_iff.2 hname] at h
    cases h
  · rintro ⟨hnone, rfl⟩
    cases hread : fileNameOfUrl url with
    | error err => rw [eq_of_fileNameOfUrl_eq_error hread]
    | ok name => exact absurd (fileNameOfUrl_eq_ok_iff.1 hread) (hnone name)

/-! ## Addresses and the conditions around them -/

/-- An address and the conditions around it, from the outermost in. -/
structure PlacedUri where
  conditions : List (String × Bool)
  url : String
  rename : Option String

namespace PlacedUri

/-- Whether all conditions around an address hold. -/
def isActive (flags : NameSet) (u : PlacedUri) : Bool :=
  u.conditions.all fun condition => flags.contains condition.1 != condition.2

/-- A file of the given name is where an address is stored: it is renamed to that, or else that is
the file name in it. -/
def IsStoredAs (u : PlacedUri) (name : String) : Prop :=
  match u.rename with
  | some target => target = name
  | none => IsFileNameOf name u.url

/-- The name that an address is stored under, and the address. -/
def named (u : PlacedUri) : Except Error (String × String) :=
  (fileNameOf u.url u.rename).map fun name => (name, u.url)

/-- An address is stored under its new name, or else under the file name in it. -/
theorem named_eq_ok_iff {u : PlacedUri} {pair : String × String} :
    u.named = .ok pair ↔ u.IsStoredAs pair.1 ∧ pair.2 = u.url := by
  obtain ⟨conditions, url, rename⟩ := u
  obtain ⟨name, other⟩ := pair
  rw [named, map_eq_ok_iff]
  cases rename with
  | some target => simp [fileNameOf, IsStoredAs, eq_comm]
  | none =>
    rw [IsStoredAs, ← fileNameOfUrl_eq_ok_iff]
    simp [fileNameOf, eq_comm]

/-- An address cannot be stored if it is not renamed and has no file name in it. -/
theorem named_eq_error_iff {u : PlacedUri} {err : Error} :
    u.named = .error err ↔
      u.rename = none ∧ (∀ name, ¬IsFileNameOf name u.url) ∧ err = .sourceUriName u.url := by
  obtain ⟨conditions, url, rename⟩ := u
  rw [named, map_eq_error_iff]
  cases rename with
  | some target => simp [fileNameOf]
  | none => simp [fileNameOf, fileNameOfUrl_eq_error_iff]

/-- Whether an address is stored under a name can be told by reading it. -/
instance decidableIsStoredAs (u : PlacedUri) (name : String) : Decidable (u.IsStoredAs name) :=
  decidable_of_iff ((fileNameOf u.url u.rename).toOption = some name) <| by
    have hnamed : u.named = .ok (name, u.url) ↔ u.IsStoredAs name ∧ u.url = u.url :=
      named_eq_ok_iff
    rw [toOption_eq_some_iff]
    simpa [named, map_eq_ok_iff] using hnamed

end PlacedUri

mutual

/-- The addresses of an entry from left to right, each with the conditions around it; the entry
itself stands under the given conditions. -/
def Entry.placedUris (around : List (String × Bool)) : Entry → List PlacedUri
  | .uri url rename => [⟨around, url, rename⟩]
  | .useConditional flag negated entries => placedUris (around ++ [(flag, negated)]) entries
  | .group entries => placedUris around entries

/-- The addresses of several entries with the conditions around them. -/
def placedUris (around : List (String × Bool)) : List Entry → List PlacedUri
  | [] => []
  | e :: rest => e.placedUris around ++ placedUris around rest

end

/-- The addresses whose conditions all hold, from left to right. -/
def activeUris (flags : NameSet) (entries : List Entry) : List PlacedUri :=
  (placedUris [] entries).filter (PlacedUri.isActive flags)

/-! ## The search through the tree -/

/-- Adds addresses, each with its name, to the files that they lead to. -/
def addNamed (files : NameMap (List String)) (uris : List PlacedUri) :
    Except Error (NameMap (List String)) :=
  (uris.mapM PlacedUri.named).map files.pushAll

theorem addNamed_nil (files : NameMap (List String)) : addNamed files [] = .ok files :=
  rfl

theorem addNamed_cons (files : NameMap (List String)) (u : PlacedUri) (rest : List PlacedUri) :
    addNamed files (u :: rest) =
      u.named.bind fun pair => addNamed (files.push pair.1 pair.2) rest := by
  rw [addNamed, List.mapM_cons]
  cases u.named with
  | error err => rfl
  | ok pair =>
    change Except.map _ (List.mapM PlacedUri.named rest >>= _) = addNamed _ rest
    rw [addNamed]
    cases rest.mapM PlacedUri.named <;> rfl

/-- Addresses are added one after the other. -/
theorem addNamed_append (files : NameMap (List String)) (us vs : List PlacedUri) :
    addNamed files (us ++ vs) = (addNamed files us).bind fun files => addNamed files vs := by
  induction us generalizing files with
  | nil => rfl
  | cons u us ih =>
    rw [List.cons_append, addNamed_cons, addNamed_cons]
    cases u.named with
    | error err => rfl
    | ok pair => exact ih _

variable {flags : NameSet}

/-- Below a condition that does not hold no address is active. -/
theorem filter_isActive_of_inactive {us : List PlacedUri} (condition : String × Bool)
    (hcondition : (flags.contains condition.1 != condition.2) = false)
    (hus : ∀ u ∈ us, condition ∈ u.conditions) : us.filter (PlacedUri.isActive flags) = [] := by
  refine List.filter_eq_nil_iff.2 fun u hu hactive => ?_
  have hholds := List.all_eq_true.1 hactive condition (hus u hu)
  rw [hcondition] at hholds
  cases hholds

mutual

/-- The conditions around an entry are around all of its addresses. -/
theorem Entry.subset_conditions (e : Entry) (around : List (String × Bool)) :
    ∀ u ∈ e.placedUris around, around ⊆ u.conditions := by
  cases e with
  | uri url rename => simp [Entry.placedUris]
  | useConditional flag negated entries =>
    intro u hu condition hcondition
    exact subset_conditions entries _ u hu (List.mem_append_left _ hcondition)
  | group entries => exact subset_conditions entries around

/-- Conditions around a group are conditions of each address in it. -/
theorem subset_conditions (entries : List Entry) (around : List (String × Bool)) :
    ∀ u ∈ placedUris around entries, around ⊆ u.conditions := by
  cases entries with
  | nil => simp [placedUris]
  | cons e rest =>
    rw [placedUris, List.forall_mem_append]
    exact ⟨e.subset_conditions around, subset_conditions rest around⟩

end

mutual

/-- Where the conditions around an entry hold, the search adds its active addresses. -/
theorem Entry.collect_eq (e : Entry) (around : List (String × Bool))
    (files : NameMap (List String))
    (h : ∀ condition ∈ around, (flags.contains condition.1 != condition.2) = true) :
    e.collect flags files =
      addNamed files ((e.placedUris around).filter (PlacedUri.isActive flags)) := by
  cases e with
  | uri url rename =>
    have hactive : PlacedUri.isActive flags ⟨around, url, rename⟩ = true := List.all_eq_true.2 h
    rw [Entry.placedUris, List.filter_cons, if_pos hactive, List.filter_nil, addNamed_cons,
      Entry.collect, PlacedUri.named]
    cases fileNameOf url rename <;> rfl
  | useConditional flag negated entries =>
    rw [Entry.placedUris, Entry.collect]
    split
    · next hholds =>
      refine collectAll_eq entries (around ++ [(flag, negated)]) files
        (List.forall_mem_append.2 ⟨h, ?_⟩)
      simpa using hholds
    · next hfails =>
      rw [filter_isActive_of_inactive (flag, negated), addNamed_nil]
      · simpa using hfails
      · exact fun u hu => subset_conditions entries _ u hu (by simp)
  | group entries => exact collectAll_eq entries around files h

/-- Where the conditions around entries hold, the search adds their active addresses. -/
theorem collectAll_eq (entries : List Entry) (around : List (String × Bool))
    (files : NameMap (List String))
    (h : ∀ condition ∈ around, (flags.contains condition.1 != condition.2) = true) :
    collectAll flags files entries =
      addNamed files ((placedUris around entries).filter (PlacedUri.isActive flags)) := by
  cases entries with
  | nil => rfl
  | cons e rest =>
    rw [placedUris, List.filter_append, addNamed_append, ← e.collect_eq around files h,
      collectAll]
    cases e.collect flags files with
    | error err => rfl
    | ok files => exact collectAll_eq rest around files h

end

/-- The search through the tree names the active addresses one after another and lists them by
their names. -/
theorem downloads_eq (entries : List Entry) (flags : NameSet) :
    downloads entries flags =
      ((activeUris flags entries).mapM PlacedUri.named).map NameMap.ofPairs :=
  collectAll_eq entries [] NameMap.empty nofun

/-! ## Files and their addresses -/

/-- Among named addresses those of a name are the addresses that are stored under it. -/
theorem valuesOf_of_named {us : List PlacedUri} {pairs : List (String × String)}
    (h : List.Forall₂ (fun u pair => PlacedUri.named u = .ok pair) us pairs) (name : String) :
    NameMap.valuesOf name pairs =
      (us.filter fun u => decide (u.IsStoredAs name)).map PlacedUri.url := by
  induction h with
  | nil => rfl
  | @cons u pair us pairs hnamed _ ih =>
    obtain ⟨hstored, hurl⟩ := PlacedUri.named_eq_ok_iff.1 hnamed
    have hname : u.IsStoredAs name ↔ pair.1 = name := by
      constructor
      · intro h
        have hpair : u.named = .ok (name, u.url) := PlacedUri.named_eq_ok_iff.2 ⟨h, rfl⟩
        rw [Except.ok.inj (hnamed.symm.trans hpair)]
      · rintro rfl
        exact hstored
    have hcons : NameMap.valuesOf name (pair :: pairs) =
        (if pair.1 = name then [pair.2] else []) ++ NameMap.valuesOf name pairs := by
      by_cases heq : pair.1 = name <;> simp [NameMap.valuesOf, heq]
    rw [hcons, ih, List.filter_cons]
    by_cases heq : pair.1 = name
    · simp [heq, hname, hurl]
    · simp [heq, hname]

/-- Files are found unless some address that holds has neither a file name in it nor another name
to be stored under; the failure is that of the first such address.  Otherwise the names of the
files are those of the addresses that hold, and each file has the addresses that are stored under
its name, in order and as often as they appear. -/
theorem downloads_groups_active (entries : List Entry) (flags : NameSet) :
    (∀ err, downloads entries flags = .error err ↔
      ∃ before u after, activeUris flags entries = before ++ u :: after ∧
        (∀ v ∈ before, ∃ name, v.IsStoredAs name) ∧
        u.rename = none ∧ (∀ name, ¬IsFileNameOf name u.url) ∧ err = .sourceUriName u.url) ∧
    ((∀ u ∈ activeUris flags entries, ∃ name, u.IsStoredAs name) →
      ∃ files, downloads entries flags = .ok files ∧
        (∀ name, name ∈ files.names ↔ ∃ u ∈ activeUris flags entries, u.IsStoredAs name) ∧
        ∀ name ∈ files.names, files.get? name = some
          (((activeUris flags entries).filter fun u => decide (u.IsStoredAs name)).map
            PlacedUri.url)) := by
  have hok (u : PlacedUri) : (∃ pair, u.named = .ok pair) ↔ ∃ name, u.IsStoredAs name := by
    simp [PlacedUri.named_eq_ok_iff]
  constructor
  · intro err
    rw [downloads_eq, map_eq_error_iff, mapM_eq_error_iff]
    simp only [hok, PlacedUri.named_eq_error_iff]
  · intro hnames
    obtain ⟨pairs, hpairs⟩ := exists_mapM_eq_ok fun u hu => (hok u).2 (hnames u hu)
    have hvalues := valuesOf_of_named (mapM_eq_ok_iff.1 hpairs)
    refine ⟨NameMap.ofPairs pairs, by rw [downloads_eq, hpairs]; rfl, fun name => ?_,
      fun name hname => ?_⟩
    · rw [NameMap.mem_names_ofPairs_iff]
      simp only [← NameMap.mem_valuesOf, hvalues]
      simp
    · obtain ⟨url, hurl⟩ := NameMap.mem_names_ofPairs_iff.1 hname
      have hne := List.ne_nil_of_mem (NameMap.mem_valuesOf.2 hurl)
      rw [NameMap.get?_ofPairs, if_neg hne, hvalues]

/-- Two mirrors of a file under different conditions, a renamed file in a group, and an address
without a file name that only counts where the flag is off. -/
def sampleMirrors : List Entry :=
  [.uri "https://a.org/x.tgz" none,
    .useConditional "ssl" false
      [.uri "https://b.org/x.tgz?raw#top" none, .group [.uri "https://b.org/v1" (some "ssl.tgz")]],
    .useConditional "ssl" true [.uri "https://c.org/" none]]

/-- With the flag the mirrors share a file, and without it the last address ends the search. -/
theorem downloads_groups_sampleMirrors :
    (∃ files, downloads sampleMirrors (NameSet.ofList ["ssl"]) = .ok files ∧
      files.get? "x.tgz" = some ["https://a.org/x.tgz", "https://b.org/x.tgz?raw#top"] ∧
      "ssl.tgz" ∈ files.names) ∧
    downloads sampleMirrors NameSet.empty = .error (.sourceUriName "https://c.org/") := by
  have hactive : activeUris (NameSet.ofList ["ssl"]) sampleMirrors =
      [⟨[], "https://a.org/x.tgz", none⟩, ⟨[("ssl", false)], "https://b.org/x.tgz?raw#top", none⟩,
        ⟨[("ssl", false)], "https://b.org/v1", some "ssl.tgz"⟩] := rfl
  constructor
  · obtain ⟨files, hfiles, hnames, hlists⟩ :=
      (downloads_groups_active sampleMirrors (NameSet.ofList ["ssl"])).2 (by
        rw [hactive]
        simp only [List.forall_mem_cons, List.not_mem_nil, false_implies, implies_true, and_true]
        exact ⟨⟨"x.tgz", by decide⟩, ⟨"x.tgz", by decide⟩, ⟨"ssl.tgz", rfl⟩⟩)
    rw [hactive] at hnames hlists
    have hshared : "x.tgz" ∈ files.names := (hnames "x.tgz").2 ⟨_, List.mem_cons_self, by decide⟩
    have hrenamed : "ssl.tgz" ∈ files.names := (hnames "ssl.tgz").2
      ⟨⟨[("ssl", false)], "https://b.org/v1", some "ssl.tgz"⟩, by simp, rfl⟩
    exact ⟨files, hfiles, hlists "x.tgz" hshared, hrenamed⟩
  · refine ((downloads_groups_active sampleMirrors NameSet.empty).1 _).2
      ⟨[⟨[], "https://a.org/x.tgz", none⟩], ⟨[("ssl", true)], "https://c.org/", none⟩, [], rfl,
        ?_, rfl, fun name hname => ?_, rfl⟩
    · exact List.forall_mem_singleton.2 ⟨"x.tgz", by decide⟩
    · have hread := fileNameOfUrl_eq_ok_iff.2 hname
      cases hread

end SourceUri
end EbuildGraph
