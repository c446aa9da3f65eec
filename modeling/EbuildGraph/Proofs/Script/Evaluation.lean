import EbuildGraph.Proofs.Script.Reading
import EbuildGraph.Script.Evaluation

/-!
# What running scripts changes

A run changes the environment at the names that it assigns to, and nowhere else.  What it has
assigned, put on top of the environment, is therefore the same before the run as after it.

Main definition:

- {lit}`Tracks`: what every state of a run has in common with its start.

Main results:

- Theorem {lit}`tracks_runFile`: running a script keeps to this.
- Theorem {lit}`overlay_run`: assignments on top of the environment before and after a run.
- Theorem {lit}`isVariableName_of_run`: a run assigns to names of variables.
-/

namespace EbuildGraph
namespace Script

/-- What every state of a run has in common with its start: what is not assigned has its old
value, and what is assigned has the name of a variable. -/
structure Tracks (start : Variables) (s : State) : Prop where
  get?_env : ∀ name, s.assigned.get? name = none → s.env.get? name = start.get? name
  isVariableName : ∀ name ∈ s.assigned.names, IsVariableName name

namespace Tracks

variable {start : Variables} {s : State}

theorem refl (start : Variables) : Tracks start ⟨start, NameMap.empty⟩ :=
  ⟨fun _ _ => rfl, nofun⟩

theorem names_insert {assigned : Variables} {name value : String}
    (h : ∀ other ∈ assigned.names, IsVariableName other) (hname : IsVariableName name) :
    ∀ other ∈ (assigned.insert name value).names, IsVariableName other := by
  intro other hother
  obtain ⟨found, hfound⟩ := NameMap.mem_names_iff.1 hother
  rw [NameMap.get?_insert] at hfound
  split at hfound
  · next heq => exact heq ▸ hname
  · exact h other (NameMap.mem_names_of_get? hfound)

theorem assign (h : Tracks start s) {name : String} (hname : IsVariableName name)
    (value : String) : Tracks start (s.assign name value) := by
  refine ⟨fun other hother => ?_, names_insert h.isVariableName hname⟩
  rw [State.assign, NameMap.get?_insert] at hother
  rw [State.assign, NameMap.get?_insert]
  split at hother
  · cases hother
  · next hne =>
    rw [if_neg hne]
    exact h.get?_env other hother

/-- Eclasses are named in what is assigned, not in the environment. -/
theorem inherit (h : Tracks start s) (value : String) :
    Tracks start { s with assigned := s.assigned.insert "INHERITED" value } := by
  have hname : IsVariableName "INHERITED" :=
    ⟨'I', "NHERITED".toList, rfl, by decide, List.all_eq_true.1 (by decide)⟩
  refine ⟨fun other hother => ?_, names_insert h.isVariableName hname⟩
  rw [NameMap.get?_insert] at hother
  split at hother
  · cases hother
  · exact h.get?_env other hother

theorem andThen {r : Run} (h : Tracks start r.1) {next : State → Run}
    (hnext : ∀ s, Tracks start s → Tracks start (next s).1) :
    Tracks start (r.andThen next).1 := by
  unfold Run.andThen
  split
  · exact hnext _ h
  · exact h

end Tracks

/-! ## Runs -/

section Runs

variable {start : Variables}

theorem tracks_runAssignments (dialect : Dialect) (path : Path) (line : Nat)
    {assignments : List (String × Value)} (hnames : ∀ a ∈ assignments, IsVariableName a.1)
    {s : State} (h : Tracks start s) :
    Tracks start (runAssignments dialect path line assignments s).1 := by
  induction assignments generalizing s with
  | nil => exact h
  | cons assignment rest ih =>
    obtain ⟨hname, hrest⟩ := List.forall_mem_cons.1 hnames
    rw [runAssignments]
    split
    · exact h
    · next text _ => exact ih hrest (h.assign hname text)

/-- Whether included scripts keep to what a run has in common with its start. -/
def IncludeTracks (start : Variables) (include_ : Option (Path → State → Run)) : Prop :=
  ∀ run ∈ include_, ∀ path s, Tracks start s → Tracks start (run path s).1

variable {include_ : Option (Path → State → Run)} (hinclude : IncludeTracks start include_)
include hinclude

theorem tracks_runStatement (dialect : Dialect) (path : Path) {statement : Statement}
    (hnames : statement.command.AssignsNames) {s : State} (h : Tracks start s) :
    Tracks start (runStatement dialect include_ path statement s).1 := by
  unfold runStatement
  split
  · next hcommand =>
    rw [hcommand] at hnames
    exact tracks_runAssignments dialect path statement.line hnames h
  · split
    · exact h
    split
    · exact h
    · exact hinclude _ rfl _ s h
  · split
    · exact h
    · exact h.inherit _

theorem tracks_runStatements (dialect : Dialect) (path : Path) {parsed : List Statement}
    (hnames : ∀ st ∈ parsed, st.command.AssignsNames) {s : State} (h : Tracks start s) :
    Tracks start (runStatements dialect include_ path parsed s).1 := by
  induction parsed generalizing s with
  | nil => exact h
  | cons statement rest ih =>
    obtain ⟨hstatement, hrest⟩ := List.forall_mem_cons.1 hnames
    exact (tracks_runStatement hinclude dialect path hstatement h).andThen
      fun s hs => ih hrest hs

theorem tracks_runFileWith (tree : FileTree) (dialect : Dialect) (path : Path) {s : State}
    (h : Tracks start s) : Tracks start (runFileWith include_ tree dialect path s).1 := by
  unfold runFileWith
  split
  · exact h
  split
  · exact h
  · next hparsed =>
    exact tracks_runStatements hinclude dialect path (assignsNames_of_statements hparsed) h

end Runs

theorem tracks_runFile {start : Variables} (tree : FileTree) (dialect : Dialect) (depth : Nat)
    (path : Path) {s : State} (h : Tracks start s) :
    Tracks start (runFile tree dialect depth path s).1 := by
  induction depth generalizing path s with
  | zero =>
    have hnone : IncludeTracks start none := fun run hrun => by cases hrun
    exact tracks_runFileWith hnone tree dialect path h
  | succ depth ih =>
    refine tracks_runFileWith ?_ tree dialect path h
    rintro run ⟨⟩ target s hs
    exact ih target hs

section Results

variable {tree : FileTree} {dialect : Dialect} {path : Path} {env assigned : Variables}
  (h : (run tree dialect path env).2 = .ok assigned)
include h

/-- The result of a run is its final state. -/
theorem tracks_run : Tracks env ⟨(run tree dialect path env).1, assigned⟩ := by
  have htracks := tracks_runFile tree dialect maxDepth path (Tracks.refl env)
  unfold run at h
  dsimp only at h
  split at h
  · cases h
    exact htracks
  · cases h

/-- A run assigns to names of variables. -/
theorem isVariableName_of_run : ∀ name ∈ assigned.names, IsVariableName name :=
  (tracks_run h).isVariableName

/-- Assignments on top of the environment are the same before the run as after it. -/
theorem overlay_run : (run tree dialect path env).1.overlay assigned = env.overlay assigned := by
  refine NameMap.ext_get? fun name => ?_
  have hnames := NameMap.ne_of_pairwise_lt assigned.sorted
  rw [NameMap.overlay, NameMap.overlay, NameMap.get?_insertAll hnames,
    NameMap.get?_insertAll hnames]
  rcases hvalue : assigned.entries.lookup name with _ | value
  · exact (tracks_run h).get?_env name hvalue
  · rfl

end Results

end Script
end EbuildGraph
