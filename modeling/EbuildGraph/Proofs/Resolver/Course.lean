import EbuildGraph.Proofs.Resolver.Fuel

/-!
# The course of a resolution

A resolution that fails has done something as well, and a resolution has to end before it
can do either.  Its course is told here without fuel: every event on the way, in order, and
how it ends, with a state or with a failure.  That there is such a course is what it means
for a resolution to end.

Main definitions:

- {lit}`Resolver.Event`: what is done on the way.
- {lit}`Resolver.Course`: the course of a search for atoms.
- {lit}`Resolver.Draining`: the course of the searches for post-dependencies.
- {lit}`Resolver.Proceeds`: the course of a whole resolution.

Main results:

- Theorem {lit}`exists_proceeds`: every resolution takes its course, and its result is the
  end of it.
- Theorem {lit}`Proceeds.unique`: there is only one course.
-/

namespace EbuildGraph
namespace Resolver

variable {r : Resolver} {a : Atom} {σ : Selection} {s t u : SearchState} {label : String}
  {record : Record} {required : Requirements} {atoms roots : List Atom} {fuel depth : Nat}
  {err : Error}

/-! ## Events -/

/-- What is done on the way: an atom is visited, as the innermost of so many visits, a label
is begun in order to expand its package, or a label starts to wait for its
post-dependencies. -/
inductive Event where
  | visit (depth : Nat) (atom : Atom)
  | begin (label : String)
  | await (label : String)
deriving DecidableEq

namespace Event

/-- The atoms visited, in order. -/
def visited (events : List Event) : List Atom :=
  events.filterMap fun
    | visit _ atom => some atom
    | _ => none

/-- The labels begun, in order. -/
def begun (events : List Event) : List String :=
  events.filterMap fun
    | begin label => some label
    | _ => none

/-- The labels that started to wait, in order. -/
def awaited (events : List Event) : List String :=
  events.filterMap fun
    | await label => some label
    | _ => none

/-- Only a label with post-dependencies starts to wait. -/
def ofPost (label : String) (post : List Atom) : List Event :=
  if post = [] then [] else [await label]

/-- Beginning a label with the given post-dependencies. -/
def ofEnter (label : String) (post : List Atom) : List Event :=
  begin label :: ofPost label post

section
variable {events events' : List Event} {post : List Atom}

@[simp]
theorem begun_nil : begun [] = [] :=
  rfl

@[simp]
theorem visited_cons_visit : visited (visit depth a :: events) = a :: visited events :=
  rfl

@[simp]
theorem begun_cons_visit : begun (visit depth a :: events) = begun events :=
  rfl

@[simp]
theorem visited_append : visited (events ++ events') = visited events ++ visited events' :=
  List.filterMap_append

@[simp]
theorem begun_append : begun (events ++ events') = begun events ++ begun events' :=
  List.filterMap_append

@[simp]
theorem awaited_append : awaited (events ++ events') = awaited events ++ awaited events' :=
  List.filterMap_append

@[simp]
theorem visited_ofEnter : visited (ofEnter label post) = [] := by
  unfold ofEnter ofPost
  split <;> rfl

@[simp]
theorem begun_ofEnter : begun (ofEnter label post) = [label] := by
  unfold ofEnter ofPost
  split <;> rfl

theorem awaited_ofEnter : awaited (ofEnter label post) = if post = [] then [] else [label] := by
  unfold ofEnter ofPost
  split <;> rfl

@[simp]
theorem visit_not_mem_ofEnter : visit depth a ∉ ofEnter label post := by
  unfold ofEnter ofPost
  split <;> simp

end

end Event

/-! ## Meeting an atom -/

/-- The package to expand for an atom.  There is none if its label is finished with the
version that is selected. -/
def meet (r : Resolver) (a : Atom) (s : SearchState) : Except Error (Option Selection) := do
  let selection ← r.select a
  match s.nodes.get? selection.label with
  | some .begun => throw (.cycle selection.label)
  | some (.finished record) =>
    let got := selection.package.version.text
    if record.version = got then return none
    else throw (.inconsistentSelection selection.label got record.version)
  | none => return some selection

/-- A visit goes no further where the selection is finished with the same version. -/
theorem meet_eq_none_iff : r.meet a s = .ok none ↔ ∃ σ record, r.select a = .ok σ ∧
    s.nodes.get? σ.label = some (.finished record) ∧
      record.version = σ.package.version.text := by
  rw [meet, bind_eq_ok_iff]
  refine exists_congr fun σ => ?_
  rw [exists_and_left]
  refine and_congr_right fun _ => ?_
  rcases hnode : s.nodes.get? σ.label with _ | _ | record
  · simp [pure, Except.pure]
  · simp [throw, throwThe, MonadExceptOf.throw]
  · by_cases hversion : record.version = σ.package.version.text
    · simp [hversion, pure, Except.pure]
    · simp [hversion, throw, throwThe, MonadExceptOf.throw]

/-- A visit begins a label where the selection has none yet. -/
theorem meet_eq_some_iff : r.meet a s = .ok (some σ) ↔ r.select a = .ok σ ∧
    s.nodes.get? σ.label = none := by
  rw [meet, bind_eq_ok_iff]
  constructor
  · rintro ⟨τ, hselect, h⟩
    rcases hnode : s.nodes.get? τ.label with _ | _ | record
    · rw [hnode] at h
      cases h
      exact ⟨hselect, hnode⟩
    · rw [hnode] at h
      cases h
    · rw [hnode] at h
      dsimp only at h
      split at h <;> cases h
  · rintro ⟨hselect, hnode⟩
    refine ⟨σ, hselect, ?_⟩
    rw [hnode]
    rfl

/-- An atom cannot be met because no package is selected for it, because its label was begun
and is not finished, or because its label is finished with another version. -/
theorem meet_eq_error (h : r.meet a s = .error err) : r.select a = .error err ∨
    ∃ σ, r.select a = .ok σ ∧
      ((s.nodes.get? σ.label = some .begun ∧ err = .cycle σ.label) ∨
        ∃ record, s.nodes.get? σ.label = some (.finished record) ∧
          record.version ≠ σ.package.version.text ∧
          err = .inconsistentSelection σ.label σ.package.version.text record.version) := by
  unfold meet at h
  rcases hselect : r.select a with err' | σ
  · rw [hselect] at h
    cases h
    exact Or.inl rfl
  refine Or.inr ⟨σ, rfl, ?_⟩
  rw [hselect] at h
  replace h : (match s.nodes.get? σ.label with
    | some .begun => throw (.cycle σ.label)
    | some (.finished record) =>
      if record.version = σ.package.version.text then pure none
      else throw (.inconsistentSelection σ.label σ.package.version.text record.version)
    | none => pure (some σ) : Except Error (Option Selection)) = .error err := h
  rcases hnode : s.nodes.get? σ.label with _ | _ | record
  · rw [hnode] at h
    cases h
  · rw [hnode] at h
    cases h
    exact Or.inl ⟨rfl, rfl⟩
  · rw [hnode] at h
    dsimp only at h
    split at h
    · cases h
    · next hversion =>
      cases h
      exact Or.inr ⟨record, rfl, hversion, rfl⟩

/-! ## Making a record -/

/-- The record of an expanded package. -/
def recordOf (r : Resolver) (σ : Selection) (required : Requirements) : Except Error Record := do
  let localSources ← σ.package.localSources
  let sourceFiles ← σ.package.sourceFiles r.tree
  return {
    name := σ.package.name
    mainSlot := σ.package.mainSlot
    ebuildPath := σ.path.text
    version := σ.package.version.text
    buildDependencies := (r.labels required.build).toList
    localSources := localSources.toList
    runtimeDependencies := (r.labels required.runtime).toList
    sourceFiles
    postDependencies := [] }

/-- The record of an expanded package describes it. -/
theorem describes_of_recordOf (hrequires : r.requirements σ.package = .ok required)
    (h : r.recordOf σ required = .ok record) :
    r.Describes σ required record ∧ record.postDependencies = [] := by
  obtain ⟨localSources, hlocal, h⟩ := bind_eq_ok_iff.1 h
  obtain ⟨sourceFiles, hsources, heq⟩ := bind_eq_ok_iff.1 h
  cases heq
  exact ⟨⟨hrequires, rfl, rfl, rfl, rfl, rfl, map_eq_ok_iff.2 ⟨localSources, hlocal, rfl⟩, rfl,
    hsources⟩, rfl⟩

/-- How the expansion of a package ends, given how the search below it ends: its label is
finished with its record, and a failure tells the label. -/
def conclude (r : Resolver) (σ : Selection) (required : Requirements)
    (below : Except Error SearchState) : Except Error SearchState :=
  (below.bind fun s => (r.recordOf σ required).map (s.finish σ.label)).mapError
    (.during σ.label)

/-- A concluded visit records its selection once the dependencies below it are done. -/
theorem conclude_eq_ok {below : Except Error SearchState}
    (h : r.conclude σ required below = .ok t) :
    ∃ u record, below = .ok u ∧ r.recordOf σ required = .ok record ∧
      t = u.finish σ.label record := by
  obtain ⟨u, hbelow, h⟩ := bind_eq_ok_iff.1 (mapError_eq_ok_iff.1 h)
  obtain ⟨record, hrecord, rfl⟩ := map_eq_ok_iff.1 h
  exact ⟨u, record, hbelow, hrecord, rfl⟩

/-- A failure below a label, or of its record, is reported during that label. -/
theorem conclude_eq_error {below : Except Error SearchState}
    (h : r.conclude σ required below = .error err) :
    ∃ cause, err = .during σ.label cause ∧
      (below = .error cause ∨ r.recordOf σ required = .error cause) := by
  unfold conclude at h
  rcases below with cause | u
  · cases h
    exact ⟨cause, rfl, Or.inl rfl⟩
  rcases hrecord : r.recordOf σ required with cause | record
  · rw [hrecord] at h
    cases h
    exact ⟨cause, rfl, Or.inr rfl⟩
  · rw [hrecord] at h
    cases h

/-! ## Courses -/

/-- The course of a search for atoms, one after the other: what happens from a state on and
how it ends.  The atoms are visited as the innermost of so many visits. -/
inductive Course (r : Resolver) :
    Nat → List Atom → SearchState → List Event → Except Error SearchState → Prop
  | done (depth : Nat) (s : SearchState) : Course r depth [] s [] (.ok s)
  | refused {depth : Nat} {a : Atom} {rest : List Atom} {s : SearchState} {err : Error}
      (hmeet : r.meet a s = .error err) :
      Course r depth (a :: rest) s [.visit depth a] (.error err)
  | known {depth : Nat} {a : Atom} {rest : List Atom} {s : SearchState} {events : List Event}
      {outcome : Except Error SearchState} (hmeet : r.meet a s = .ok none)
      (hrest : Course r depth rest s events outcome) :
      Course r depth (a :: rest) s (.visit depth a :: events) outcome
  | unread {depth : Nat} {a : Atom} {rest : List Atom} {s : SearchState} {σ : Selection}
      {err : Error} (hmeet : r.meet a s = .ok (some σ))
      (hrequires : r.requirements σ.package = .error err) :
      Course r depth (a :: rest) s [.visit depth a, .begin σ.label]
        (.error (.during σ.label err))
  | failed {depth : Nat} {a : Atom} {rest : List Atom} {s : SearchState} {σ : Selection}
      {required : Requirements} {events : List Event} {below : Except Error SearchState}
      {err : Error} (hmeet : r.meet a s = .ok (some σ))
      (hrequires : r.requirements σ.package = .ok required)
      (hbelow : Course r (depth + 1) (required.runtime ++ required.build)
        (s.enter σ.label required.post) events below)
      (hconclude : r.conclude σ required below = .error err) :
      Course r depth (a :: rest) s
        (.visit depth a :: (Event.ofEnter σ.label required.post ++ events)) (.error err)
  | expanded {depth : Nat} {a : Atom} {rest : List Atom} {s t : SearchState} {σ : Selection}
      {required : Requirements} {events events' : List Event}
      {below outcome : Except Error SearchState} (hmeet : r.meet a s = .ok (some σ))
      (hrequires : r.requirements σ.package = .ok required)
      (hbelow : Course r (depth + 1) (required.runtime ++ required.build)
        (s.enter σ.label required.post) events below)
      (hconclude : r.conclude σ required below = .ok t)
      (hrest : Course r depth rest t events' outcome) :
      Course r depth (a :: rest) s
        (.visit depth a :: (Event.ofEnter σ.label required.post ++ events) ++ events') outcome

/-- The course of the searches for the post-dependencies of all labels that wait, those that
start to wait on the way included. -/
inductive Draining (r : Resolver) :
    SearchState → List Event → Except Error SearchState → Prop
  | done {s : SearchState} (hwaiting : s.waiting = []) : Draining r s [] (.ok s)
  | failed {s : SearchState} {label : String} {atoms : List Atom}
      {rest : List (String × List Atom)} {events : List Event} {err : Error}
      (hwaiting : s.waiting = (label, atoms) :: rest)
      (hcourse : Course r 1 atoms { s with waiting := rest } events (.error err)) :
      Draining r s events (.error (.during (label ++ " (PDEPEND)") err))
  | searched {s u : SearchState} {label : String} {atoms : List Atom}
      {rest : List (String × List Atom)} {events events' : List Event}
      {outcome : Except Error SearchState} (hwaiting : s.waiting = (label, atoms) :: rest)
      (hcourse : Course r 1 atoms { s with waiting := rest } events (.ok u))
      (hrest : Draining r (u.setPost label (r.labels atoms).toList) events' outcome) :
      Draining r s (events ++ events') outcome

/-- The course of a whole resolution: a search for the atoms asked for, and after it the
searches for post-dependencies. -/
inductive Proceeds (r : Resolver) (roots : List Atom) :
    List Event → Except Error SearchState → Prop
  | failed {events : List Event} {err : Error}
      (hcourse : Course r 1 roots .empty events (.error err)) : Proceeds r roots events (.error err)
  | searched {s : SearchState} {events events' : List Event} {outcome : Except Error SearchState}
      (hcourse : Course r 1 roots .empty events (.ok s)) (hrest : Draining r s events' outcome) :
      Proceeds r roots (events ++ events') outcome

section
variable {events events' : List Event} {outcome outcome' : Except Error SearchState}

/-! ## Successful courses -/

/-- The course of a success is a search. -/
theorem Course.search (h : Course r depth atoms s events outcome) (hok : outcome = .ok t) :
    Search r atoms s t := by
  induction h generalizing t with
  | done =>
    cases hok
    exact .done _
  | refused => cases hok
  | known hmeet _ ih =>
    obtain ⟨σ, record, hselect, hnode, hversion⟩ := meet_eq_none_iff.1 hmeet
    exact .known hselect hnode hversion (ih hok)
  | unread => cases hok
  | failed => cases hok
  | expanded hmeet hrequires _ hconclude _ ihBelow ihRest =>
    obtain ⟨hselect, hnode⟩ := meet_eq_some_iff.1 hmeet
    obtain ⟨u, record, hbelow, hrecord, rfl⟩ := conclude_eq_ok hconclude
    obtain ⟨hdescribes, hpost⟩ := describes_of_recordOf hrequires hrecord
    exact .expanded hselect hnode hdescribes hpost (ihBelow hbelow) (ihRest hok)

/-- A drained queue was emptied step by step. -/
theorem Draining.steps (h : Draining r s events outcome) (hok : outcome = .ok t) :
    Relation.ReflTransGen (DrainStep r) s t ∧ t.waiting = [] := by
  induction h with
  | done hwaiting =>
    cases hok
    exact ⟨.refl, hwaiting⟩
  | failed => cases hok
  | searched hwaiting hcourse _ ih =>
    obtain ⟨hsteps, hdone⟩ := ih hok
    exact ⟨.head (.intro hwaiting (hcourse.search rfl)) hsteps, hdone⟩

/-- The course of a resolution that succeeds is a run. -/
theorem Proceeds.runs (h : Proceeds r roots events (.ok t)) : r.Runs roots t := by
  generalize houtcome : Except.ok t = outcome at h
  cases h with
  | failed => cases houtcome
  | searched hcourse hrest =>
    obtain ⟨hsteps, hdone⟩ := hrest.steps houtcome.symm
    exact ⟨_, hcourse.search rfl, hsteps, hdone⟩

/-! ## There is one course -/

/-- What a visit meets is determined by the atom and the state. -/
theorem meet_unique {τ : Selection} (h : r.meet a s = .ok (some σ))
    (h' : r.meet a s = .ok (some τ)) : σ = τ :=
  Option.some.inj (Except.ok.inj (h.symm.trans h'))

/-- A package has one set of requirements. -/
theorem requirements_unique {required' : Requirements} {p : Package}
    (h : r.requirements p = .ok required) (h' : r.requirements p = .ok required') :
    required = required' :=
  Except.ok.inj (h.symm.trans h')

/-- From one state there is one course of a search. -/
theorem Course.unique (h : Course r depth atoms s events outcome)
    (h' : Course r depth atoms s events' outcome') : events = events' ∧ outcome = outcome' := by
  induction h generalizing events' outcome' with
  | done =>
    cases h'
    exact ⟨rfl, rfl⟩
  | refused hmeet =>
    cases h' with
    | refused hmeet' =>
      obtain rfl := Except.error.inj (hmeet.symm.trans hmeet')
      exact ⟨rfl, rfl⟩
    | known hmeet' | unread hmeet' | failed hmeet' | expanded hmeet' =>
      exact nomatch hmeet.symm.trans hmeet'
  | known hmeet _ ih =>
    cases h' with
    | known _ hrest' =>
      obtain ⟨rfl, rfl⟩ := ih hrest'
      exact ⟨rfl, rfl⟩
    | refused hmeet' | unread hmeet' | failed hmeet' | expanded hmeet' =>
      exact nomatch hmeet.symm.trans hmeet'
  | unread hmeet hrequires =>
    cases h' with
    | refused hmeet' | known hmeet' => exact nomatch hmeet.symm.trans hmeet'
    | unread hmeet' hrequires' =>
      obtain rfl := meet_unique hmeet hmeet'
      obtain rfl := Except.error.inj (hrequires.symm.trans hrequires')
      exact ⟨rfl, rfl⟩
    | failed hmeet' hrequires' | expanded hmeet' hrequires' =>
      obtain rfl := meet_unique hmeet hmeet'
      exact nomatch hrequires.symm.trans hrequires'
  | failed hmeet hrequires _ hconclude ih =>
    cases h' with
    | refused hmeet' | known hmeet' => exact nomatch hmeet.symm.trans hmeet'
    | unread hmeet' hrequires' =>
      obtain rfl := meet_unique hmeet hmeet'
      exact nomatch hrequires.symm.trans hrequires'
    | failed hmeet' hrequires' hbelow' hconclude' =>
      obtain rfl := meet_unique hmeet hmeet'
      obtain rfl := requirements_unique hrequires hrequires'
      obtain ⟨rfl, rfl⟩ := ih hbelow'
      obtain rfl := Except.error.inj (hconclude.symm.trans hconclude')
      exact ⟨rfl, rfl⟩
    | expanded hmeet' hrequires' hbelow' hconclude' =>
      obtain rfl := meet_unique hmeet hmeet'
      obtain rfl := requirements_unique hrequires hrequires'
      obtain ⟨_, rfl⟩ := ih hbelow'
      exact nomatch hconclude.symm.trans hconclude'
  | expanded hmeet hrequires _ hconclude _ ihBelow ihRest =>
    cases h' with
    | refused hmeet' | known hmeet' => exact nomatch hmeet.symm.trans hmeet'
    | unread hmeet' hrequires' =>
      obtain rfl := meet_unique hmeet hmeet'
      exact nomatch hrequires.symm.trans hrequires'
    | failed hmeet' hrequires' hbelow' hconclude' =>
      obtain rfl := meet_unique hmeet hmeet'
      obtain rfl := requirements_unique hrequires hrequires'
      obtain ⟨_, rfl⟩ := ihBelow hbelow'
      exact nomatch hconclude.symm.trans hconclude'
    | expanded hmeet' hrequires' hbelow' hconclude' hrest' =>
      obtain rfl := meet_unique hmeet hmeet'
      obtain rfl := requirements_unique hrequires hrequires'
      obtain ⟨rfl, rfl⟩ := ihBelow hbelow'
      obtain rfl := Except.ok.inj (hconclude.symm.trans hconclude')
      obtain ⟨rfl, rfl⟩ := ihRest hrest'
      exact ⟨rfl, rfl⟩

/-- From one state there is one course of the searches for post-dependencies. -/
theorem Draining.unique (h : Draining r s events outcome) (h' : Draining r s events' outcome') :
    events = events' ∧ outcome = outcome' := by
  induction h generalizing events' outcome' with
  | done hwaiting =>
    cases h' with
    | done => exact ⟨rfl, rfl⟩
    | failed hwaiting' | searched hwaiting' => exact nomatch hwaiting.symm.trans hwaiting'
  | failed hwaiting hcourse =>
    cases h' with
    | done hwaiting' => exact nomatch hwaiting.symm.trans hwaiting'
    | failed hwaiting' hcourse' =>
      cases hwaiting.symm.trans hwaiting'
      obtain ⟨rfl, heq⟩ := hcourse.unique hcourse'
      obtain rfl := Except.error.inj heq
      exact ⟨rfl, rfl⟩
    | searched hwaiting' hcourse' =>
      cases hwaiting.symm.trans hwaiting'
      exact nomatch (hcourse.unique hcourse').2
  | searched hwaiting hcourse _ ih =>
    cases h' with
    | done hwaiting' => exact nomatch hwaiting.symm.trans hwaiting'
    | failed hwaiting' hcourse' =>
      cases hwaiting.symm.trans hwaiting'
      exact nomatch (hcourse.unique hcourse').2
    | searched hwaiting' hcourse' hrest' =>
      cases hwaiting.symm.trans hwaiting'
      obtain ⟨rfl, heq⟩ := hcourse.unique hcourse'
      obtain rfl := Except.ok.inj heq
      obtain ⟨rfl, rfl⟩ := ih hrest'
      exact ⟨rfl, rfl⟩

/-- A resolution takes one course only. -/
theorem Proceeds.unique (h : Proceeds r roots events outcome)
    (h' : Proceeds r roots events' outcome') : events = events' ∧ outcome = outcome' := by
  cases h with
  | failed hcourse =>
    cases h' with
    | failed hcourse' => exact hcourse.unique hcourse'
    | searched hcourse' => exact nomatch (hcourse.unique hcourse').2
  | searched hcourse hrest =>
    cases h' with
    | failed hcourse' => exact nomatch (hcourse.unique hcourse').2
    | searched hcourse' hrest' =>
      obtain ⟨rfl, heq⟩ := hcourse.unique hcourse'
      obtain rfl := Except.ok.inj heq
      obtain ⟨rfl, rfl⟩ := hrest.unique hrest'
      exact ⟨rfl, rfl⟩

/-! ## Every resolution takes its course -/

/-- The state that visits end in. -/
def ending {α : Type} (x : Except Error (α × SearchState)) : Except Error SearchState :=
  x.map Prod.snd

/-- A list of atoms is visited from the left, and the first failure ends it. -/
theorem ending_visitAll_cons (visitor : Visitor) (a : Atom) (rest : List Atom) (s : SearchState) :
    ending (visitAll visitor (a :: rest) s) =
      (ending (visitor a s)).bind fun u => ending (visitAll visitor rest u) := by
  rw [visitAll]
  rcases visitor a s with err | ⟨label, u⟩
  · rfl
  · change ending (visitAll visitor rest u >>= fun p => _) = ending (visitAll visitor rest u)
    rcases visitAll visitor rest u with err | ⟨names, v⟩ <;> rfl

/-- Visits end as those of the first atoms do, and then as those of the others. -/
theorem ending_visitAll_append (visitor : Visitor) (xs ys : List Atom) (s : SearchState) :
    ending (visitAll visitor (xs ++ ys) s) =
      (ending (visitAll visitor xs s)).bind fun u => ending (visitAll visitor ys u) := by
  induction xs generalizing s with
  | nil => rfl
  | cons a rest ih =>
    rw [List.cons_append, ending_visitAll_cons, ending_visitAll_cons]
    cases ending (visitor a s) with
    | error err => rfl
    | ok u => exact ih u

/-- An expansion searches what the package requires and makes its record. -/
theorem expand_eq {visitor : Visitor} (hvisitor : IsSearch r visitor)
    (hrequires : r.requirements σ.package = .ok required) :
    r.expand visitor σ (s.begin σ.label) =
      (ending (visitAll visitor (required.runtime ++ required.build)
        (s.enter σ.label required.post))).bind fun u =>
          (r.recordOf σ required).map fun record => (record, u) := by
  rw [ending_visitAll_append, expand, hrequires]
  dsimp only [bind, Except.bind]
  rcases hruntime : visitAll visitor required.runtime
      ((s.begin σ.label).await σ.label required.post) with err | ⟨runtime, u⟩
  · rw [SearchState.enter, hruntime]
    rfl
  obtain ⟨rfl, _⟩ := search_of_visitAll hvisitor hruntime
  rw [SearchState.enter, hruntime]
  dsimp only [ending, Except.map]
  rcases hbuild : visitAll visitor required.build u with err | ⟨build, t⟩
  · rfl
  obtain ⟨rfl, _⟩ := search_of_visitAll hvisitor hbuild
  dsimp only [recordOf, bind, Except.bind]
  rcases σ.package.localSources with err | localSources
  · rfl
  rcases σ.package.sourceFiles r.tree with err | sourceFiles <;> rfl

/-- A visit that cannot select fails with the cause of the selection. -/
theorem ending_visit_of_error (h : r.meet a s = .error err) :
    ending (r.visit (fuel + 1) a s) = .error err := by
  rcases meet_eq_error h with hselect | ⟨σ, hselect, ⟨hnode, rfl⟩ | ⟨record, hnode, hversion, rfl⟩⟩
  · rw [visit, hselect]
    rfl
  · rw [visit, hselect]
    dsimp only [bind, Except.bind]
    rw [hnode]
    rfl
  · rw [visit, hselect]
    dsimp only [bind, Except.bind]
    rw [hnode]
    dsimp only
    rw [if_neg hversion]
    rfl

/-- A visit to a finished selection leaves the state as it is. -/
theorem ending_visit_of_none (h : r.meet a s = .ok none) :
    ending (r.visit (fuel + 1) a s) = .ok s := by
  obtain ⟨σ, record, hselect, hnode, hversion⟩ := meet_eq_none_iff.1 h
  have hvisit : r.visit (fuel + 1) a s = .ok (σ.label, s) :=
    visit_succ_eq_ok_iff.2 ⟨σ, hselect, rfl, Or.inl ⟨record, hnode, hversion, rfl⟩⟩
  rw [hvisit]
  rfl

/-- A visit to a new selection begins it, expands it and records it. -/
theorem ending_visit_of_some (h : r.meet a s = .ok (some σ)) :
    ending (r.visit (fuel + 1) a s) =
      ((r.expand (r.visit fuel) σ (s.begin σ.label)).map fun p =>
        p.2.finish σ.label p.1).mapError (.during σ.label) := by
  obtain ⟨hselect, hnode⟩ := meet_eq_some_iff.1 h
  rw [visit, hselect]
  dsimp only [bind, Except.bind]
  rw [hnode]
  rcases r.expand (r.visit fuel) σ (s.begin σ.label) with err | ⟨record, u⟩ <;> rfl

/-- Where the requirements cannot be read, the visit fails during the label. -/
theorem ending_visit_of_unread (h : r.meet a s = .ok (some σ))
    (hrequires : r.requirements σ.package = .error err) :
    ending (r.visit (fuel + 1) a s) = .error (.during σ.label err) := by
  rw [ending_visit_of_some h, expand, hrequires]
  rfl

/-- Where the requirements are read, the visit goes on to the runtime and the build dependencies. -/
theorem ending_visit_of_read (h : r.meet a s = .ok (some σ))
    (hrequires : r.requirements σ.package = .ok required) :
    ending (r.visit (fuel + 1) a s) = r.conclude σ required
      (ending (visitAll (r.visit fuel) (required.runtime ++ required.build)
        (s.enter σ.label required.post))) := by
  rw [ending_visit_of_some h, expand_eq (isSearch_visit r fuel) hrequires, conclude]
  cases ending (visitAll (r.visit fuel) (required.runtime ++ required.build)
    (s.enter σ.label required.post)) with
  | error err => rfl
  | ok u =>
    dsimp only [Except.bind]
    cases r.recordOf σ required <;> rfl

/-- With more fuel than labels are left, visits take a course. -/
theorem exists_course (hatoms : ∀ a ∈ atoms, Reached r roots a)
    (hfuel : (r.unmet roots s).length < fuel) :
    ∃ events, Course r depth atoms s events (ending (visitAll (r.visit fuel) atoms s)) := by
  induction fuel generalizing atoms s depth with
  | zero => omega
  | succ fuel ihFuel =>
    induction atoms generalizing s with
    | nil => exact ⟨[], .done depth s⟩
    | cons a rest ihRest =>
      obtain ⟨hreached, hrest⟩ := List.forall_mem_cons.1 hatoms
      rw [ending_visitAll_cons]
      rcases hmeet : r.meet a s with err | _ | σ
      · rw [ending_visit_of_error hmeet]
        exact ⟨_, .refused hmeet⟩
      · obtain ⟨events, hcourse⟩ := ihRest hrest hfuel
        rw [ending_visit_of_none hmeet]
        exact ⟨_, .known hmeet hcourse⟩
      obtain ⟨hselect, hnode⟩ := meet_eq_some_iff.1 hmeet
      rcases hrequires : r.requirements σ.package with err | required
      · rw [ending_visit_of_unread hmeet hrequires]
        exact ⟨_, .unread hmeet hrequires⟩
      -- One label fewer is left below, so the fuel of the inner visits is enough.
      have hlt := length_unmet_enter_lt hreached hselect hnode required.post
      have hleft : (r.unmet roots (s.enter σ.label required.post)).length < fuel := by omega
      obtain ⟨events, hbelow⟩ : ∃ events, Course r (depth + 1)
          (required.runtime ++ required.build) (s.enter σ.label required.post) events
          (ending (visitAll (r.visit fuel) (required.runtime ++ required.build)
            (s.enter σ.label required.post))) :=
        ihFuel (hreached.needs hselect hrequires) hleft
      rw [ending_visit_of_read hmeet hrequires]
      generalize ending (visitAll (r.visit fuel) (required.runtime ++ required.build)
        (s.enter σ.label required.post)) = below at hbelow
      rcases hconclude : r.conclude σ required below with err | t
      · exact ⟨_, .failed hmeet hrequires hbelow hconclude⟩
      have hgrows : Grows s t := by
        obtain ⟨u, record, hu, _, rfl⟩ := conclude_eq_ok hconclude
        exact .of_enter hnode (hbelow.search hu).grows
      have hle : (r.unmet roots t).length ≤ (r.unmet roots s).length :=
        length_unmet_le fun _ => hgrows.unmet
      obtain ⟨events', hcourse⟩ := ihRest hrest (Nat.lt_of_le_of_lt hle hfuel)
      exact ⟨_, .expanded hmeet hrequires hbelow hconclude hcourse⟩

/-- With enough fuel the searches for post-dependencies take a course. -/
theorem exists_draining {bound : Nat} (hwaits : r.WaitsReached roots s)
    (hbound : r.backlog roots s ≤ bound) (hfuel : r.backlog roots s < fuel) :
    ∃ events, Draining r s events (drain (r.visit fuel) bound s) := by
  induction bound generalizing s with
  | zero =>
    have hwaiting : s.waiting = [] := by
      refine List.length_eq_zero_iff.1 ?_
      simp only [backlog] at hbound
      omega
    exact ⟨[], .done hwaiting⟩
  | succ bound ih =>
    rw [drain]
    split
    · next hwaiting => exact ⟨[], .done hwaiting⟩
    next label atoms rest hwaiting =>
    have hatoms : ∀ a ∈ atoms, Reached r roots a := hwaits _ (hwaiting ▸ List.mem_cons_self)
    have hleft : (r.unmet roots { s with waiting := rest }).length < fuel := by
      have hsame : r.unmet roots { s with waiting := rest } = r.unmet roots s := rfl
      rw [hsame]
      unfold backlog at hfuel
      omega
    obtain ⟨events, hcourse⟩ : ∃ events, Course r 1 atoms { s with waiting := rest } events
        (ending (visitAll (r.visit fuel) atoms { s with waiting := rest })) :=
      exists_course hatoms hleft
    rcases hvisit : visitAll (r.visit fuel) atoms { s with waiting := rest } with
      err | ⟨names, u⟩
    · rw [hvisit] at hcourse
      exact ⟨_, .failed hwaiting hcourse⟩
    rw [hvisit] at hcourse
    obtain ⟨rfl, hsearch⟩ := search_of_visitAll (isSearch_visit r fuel) hvisit
    have hstep : DrainStep r s (u.setPost label (r.labels atoms).toList) := .intro hwaiting hsearch
    have hlt := backlog_step_lt hstep hwaits
    obtain ⟨events', hrest⟩ := ih (hwaits.step hstep) (by omega) (by omega)
    exact ⟨_, .searched hwaiting hcourse hrest⟩

end

/-- The records of a state in which a resolution ends, completed with nested sources and with
post-dependencies. -/
def SearchState.completed (s : SearchState) : Records :=
  Records.propagate (Records.addNestedSources s.records)

/-- Every resolution takes its course, and its result is the end of it. -/
theorem exists_proceeds (r : Resolver) (roots : List Atom) : ∃ events outcome,
    Proceeds r roots events outcome ∧ r.resolve roots = outcome.map SearchState.completed := by
  have hroots : ∀ a ∈ roots, Reached r roots a := fun _ => .root
  have hempty : r.backlog roots .empty ≤ r.labelBound roots :=
    (List.length_filter_le _ _).trans (r.length_possibleLabels_le roots)
  obtain ⟨events, hcourse⟩ : ∃ events, Course r 1 roots .empty events
      (ending (visitAll (r.visit (r.labelBound roots + 1)) roots .empty)) :=
    exists_course hroots (Nat.lt_succ_of_le hempty)
  rcases hvisit : visitAll (r.visit (r.labelBound roots + 1)) roots .empty with err | ⟨names, s⟩
  · rw [hvisit] at hcourse
    refine ⟨events, .error err, .failed hcourse, ?_⟩
    rw [resolve, hvisit]
    rfl
  rw [hvisit] at hcourse
  have hsearch : Search r roots .empty s := hcourse.search rfl
  have hwaits := (waitsReached_empty r roots).search hsearch hroots
  have hle : r.backlog roots s ≤ r.labelBound roots := (hsearch.backlog_le hroots).trans hempty
  obtain ⟨events', hrest⟩ : ∃ events, Draining r s events
      (drain (r.visit (r.labelBound roots + 1)) (r.labelBound roots + 1) s) :=
    exists_draining hwaits (Nat.le_succ_of_le hle) (Nat.lt_succ_of_le hle)
  refine ⟨_, _, .searched hcourse hrest, ?_⟩
  rw [resolve, hvisit]
  dsimp only [bind, Except.bind]
  cases drain (r.visit (r.labelBound roots + 1)) (r.labelBound roots + 1) s <;> rfl

/-- A resolution that succeeds has taken its course to the end of a run. -/
theorem exists_proceeds_of_ok {m : Records} (h : r.resolve roots = .ok m) :
    ∃ events t, Proceeds r roots events (.ok t) ∧ m = t.completed := by
  obtain ⟨events, outcome, hproceeds, hresult⟩ := exists_proceeds r roots
  rw [hresult] at h
  obtain ⟨t, rfl, rfl⟩ := map_eq_ok_iff.1 h
  exact ⟨events, t, hproceeds, rfl⟩

/-- A resolution that fails has taken its course to that failure. -/
theorem exists_proceeds_of_error (h : r.resolve roots = .error err) :
    ∃ events, Proceeds r roots events (.error err) := by
  obtain ⟨events, outcome, hproceeds, hresult⟩ := exists_proceeds r roots
  rw [hresult] at h
  cases outcome with
  | error cause =>
    cases h
    exact ⟨events, hproceeds⟩
  | ok t => cases h

end Resolver
end EbuildGraph
