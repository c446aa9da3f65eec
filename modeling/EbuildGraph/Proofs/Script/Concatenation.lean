import EbuildGraph.Proofs.FileTree.Writing
import EbuildGraph.Proofs.Script.Inclusion
import EbuildGraph.Proofs.Script.Lines

/-!
# Scripts one behind the other

A script that ends a line and a script behind it run as the first and then the second do.  The
statements of both are those of either, further down in the second; a statement that succeeds
does so on any line; what configuration files assign depends on the environment alone, so the
table of the second part goes on top of the table of the first; and the scripts that are
included do not change with the file, unless they lead back to it.

Main definition:

- {lit}`State.over`: a state with assignments made before.

Main results:

- Theorem {lit}`runFile_over`: configuration files do not read what was assigned before.
- Theorem {lit}`runStatements_append`: statements one behind the other.
- Theorem {lit}`run_append`: scripts one behind the other.
-/

namespace EbuildGraph
namespace Script

variable {path : Path} {s s' t : State}

/-! ## Assignments made before -/

/-- A state with assignments made before. -/
def State.over (assigned : Variables) (s : State) : State :=
  ⟨s.env, assigned.overlay s.assigned⟩

/-- A run with assignments made before. -/
def Run.over (assigned : Variables) (r : Run) : Run :=
  (r.1.over assigned, r.2)

theorem State.assign_over (assigned : Variables) (s : State) (name value : String) :
    (s.over assigned).assign name value = (s.assign name value).over assigned := by
  simp [State.over, State.assign, NameMap.overlay_insert]

theorem Run.andThen_over (assigned : Variables) (r : Run) {next : State → Run}
    (hnext : ∀ s, next (s.over assigned) = (next s).over assigned) :
    (r.over assigned).andThen next = (r.andThen next).over assigned := by
  obtain ⟨s, failure⟩ := r
  cases failure with
  | none => exact hnext s
  | some err => rfl

section Over

variable {allowed : Bool} (assigned : Variables)

theorem runAssignments_over (line : Nat) (assignments : List (String × Value)) (s : State) :
    runAssignments (.configuration allowed) path line assignments (s.over assigned) =
      (runAssignments (.configuration allowed) path line assignments s).over assigned := by
  induction assignments generalizing s with
  | nil => rfl
  | cons assignment rest ih =>
    obtain ⟨name, value⟩ := assignment
    cases value with
    | scalar word =>
      simp only [runAssignments, Value.evaluate]
      rw [State.assign_over, ih]
      rfl
    | array words => rfl

variable {include_ : Option (Path → State → Run)}
  (hinclude : ∀ run ∈ include_, ∀ path s, run path (s.over assigned) = (run path s).over assigned)
include hinclude

theorem runStatement_over (st : Statement) (s : State) :
    runStatement (.configuration allowed) include_ path st (s.over assigned) =
      (runStatement (.configuration allowed) include_ path st s).over assigned := by
  obtain ⟨line, command⟩ := st
  cases command with
  | assign assignments => exact runAssignments_over assigned line assignments s
  | source word =>
    cases allowed with
    | false => rfl
    | true =>
      cases include_ with
      | none => rfl
      | some run => exact hinclude run rfl _ s
  | inherit eclasses => rfl

theorem runStatements_over (parsed : List Statement) (s : State) :
    runStatements (.configuration allowed) include_ path parsed (s.over assigned) =
      (runStatements (.configuration allowed) include_ path parsed s).over assigned := by
  induction parsed generalizing s with
  | nil => rfl
  | cons st rest ih =>
    rw [runStatements, runStatements, runStatement_over assigned hinclude]
    exact Run.andThen_over assigned _ ih

theorem runFileWith_over (tree : FileTree) (path : Path) (s : State) :
    runFileWith include_ tree (.configuration allowed) path (s.over assigned) =
      (runFileWith include_ tree (.configuration allowed) path s).over assigned := by
  unfold runFileWith
  split
  · rfl
  split
  · rfl
  · exact runStatements_over assigned hinclude _ s

end Over

/-- Configuration files do not read what was assigned before. -/
theorem runFile_over {allowed : Bool} (assigned : Variables) (tree : FileTree) (depth : Nat)
    (path : Path) (s : State) :
    runFile tree (.configuration allowed) depth path (s.over assigned) =
      (runFile tree (.configuration allowed) depth path s).over assigned := by
  induction depth generalizing path s with
  | zero => exact runFileWith_over assigned (fun run hrun => by cases hrun) tree path s
  | succ depth ih =>
    refine runFileWith_over assigned ?_ tree path s
    rintro run ⟨⟩ path s
    exact ih path s

/-! ## Statements one behind the other -/

section Statements

variable {dialect : Dialect} {include_ : Option (Path → State → Run)}

theorem runStatements_append (first second : List Statement) (s : State) :
    runStatements dialect include_ path (first ++ second) s =
      (runStatements dialect include_ path first s).andThen
        (runStatements dialect include_ path second) := by
  induction first generalizing s with
  | nil => rfl
  | cons st rest ih =>
    rw [List.cons_append, runStatements, runStatements]
    obtain ⟨t, failure⟩ := runStatement dialect include_ path st s
    cases failure with
    | none => exact ih t
    | some err => rfl

/-- Assignments that succeed do so on any line. -/
theorem runAssignments_line {line : Nat} {assignments : List (String × Value)}
    (h : runAssignments dialect path line assignments s = (s', none)) (other : Nat) :
    runAssignments dialect path other assignments s = (s', none) := by
  induction assignments generalizing s with
  | nil => exact h
  | cons assignment rest ih =>
    obtain ⟨name, value⟩ := assignment
    rw [runAssignments] at h ⊢
    cases hvalue : value.evaluate dialect s.env with
    | none => simp [hvalue] at h
    | some text => exact ih (by simpa [hvalue] using h)

/-- A statement that succeeds does so on any line. -/
theorem runStatement_shift {st : Statement}
    (h : runStatement dialect include_ path st s = (s', none)) (lines : Nat) :
    runStatement dialect include_ path (st.shift lines) s = (s', none) := by
  obtain ⟨line, command⟩ := st
  cases command with
  | assign assignments => exact runAssignments_line h (lines + line)
  | source word =>
    cases hallowed : dialect.sourceAllowed with
    | false => simp [runStatement, hallowed] at h
    | true =>
      cases include_ with
      | none => simp [runStatement, hallowed] at h
      | some run => simpa [runStatement, Statement.shift, hallowed] using h
  | inherit eclasses =>
    cases dialect with
    | configuration allowed => simp [runStatement] at h
    | ebuild => exact h

theorem runStatements_shift {parsed : List Statement}
    (h : runStatements dialect include_ path parsed s = (s', none)) (lines : Nat) :
    runStatements dialect include_ path (parsed.map (Statement.shift lines)) s = (s', none) := by
  induction parsed generalizing s with
  | nil => exact h
  | cons st rest ih =>
    obtain ⟨t, hfirst, hrest⟩ := runStatements_cons_eq_iff.1 h
    exact runStatements_cons_eq_iff.2 ⟨t, runStatement_shift hfirst lines, ih hrest⟩

end Statements

/-! ## Scripts one behind the other -/

/-- What a script that was written runs, in this tree and in one that has another text at its
path. -/
theorem exists_runStatements_of_run {base written rewritten : FileTree} {text other : String}
    {dialect : Dialect} {env env' assigned : Variables}
    (hwritten : base.writeText path text = .ok written)
    (hrewritten : base.writeText path other = .ok rewritten)
    (hback : ∀ q, RefersTo written dialect path env q → ¬ written.SameFile q path)
    (h : run written dialect path env = (env', .ok assigned)) :
    ∃ parsed, statements text = .ok parsed ∧
      runStatements dialect (includer rewritten dialect maxDepth) path parsed
        ⟨env, NameMap.empty⟩ = (⟨env', assigned⟩, none) := by
  rw [run_eq_iff, runFile_eq, runFileWith_eq_iff] at h
  obtain ⟨read, parsed, hread, hparsed, hrun⟩ := h
  obtain rfl : text = read :=
    Except.ok.inj ((FileTree.readText_writeText hwritten).symm.trans hread)
  refine ⟨parsed, hparsed, runStatements_of_reads hrun fun q hq found hfound => ?_⟩
  exact FileTree.readText_of_rewritten hwritten hrewritten
    (hback q ⟨text, parsed, hread, hparsed, hq⟩) hfound

/-- A script that is empty or ends a line and a script behind it, at the same path, run as the
first and, from the environment that it leaves, the second do. -/
theorem run_append {base first second both : FileTree} {s t : String} {allowed : Bool}
    {env env₁ env₂ assigned₁ assigned₂ : Variables}
    (hs : s.toList = [] ∨ EndsLine s.toList)
    (hfirst : base.writeText path s = .ok first) (hsecond : base.writeText path t = .ok second)
    (hboth : base.writeText path (s ++ t) = .ok both)
    (hback₁ : ∀ q, RefersTo first (.configuration allowed) path env q → ¬ first.SameFile q path)
    (hback₂ : ∀ q, RefersTo second (.configuration allowed) path env₁ q →
      ¬ second.SameFile q path)
    (hrun₁ : run first (.configuration allowed) path env = (env₁, .ok assigned₁))
    (hrun₂ : run second (.configuration allowed) path env₁ = (env₂, .ok assigned₂)) :
    run both (.configuration allowed) path env = (env₂, .ok (assigned₁.overlay assigned₂)) := by
  obtain ⟨parsed₁, hparsed₁, hstatements₁⟩ :=
    exists_runStatements_of_run hfirst hboth hback₁ hrun₁
  obtain ⟨parsed₂, hparsed₂, hstatements₂⟩ :=
    exists_runStatements_of_run hsecond hboth hback₂ hrun₂
  have hinclude : ∀ run ∈ includer both (.configuration allowed) maxDepth, ∀ path s,
      run path (State.over assigned₁ s) = (run path s).over assigned₁ := by
    rintro run ⟨⟩ path s
    exact runFile_over assigned₁ both _ path s
  have hshifted := runStatements_shift hstatements₂ (s.toList.count '\n')
  rw [run_eq_iff, runFile_eq, runFileWith_eq_iff]
  refine ⟨s ++ t, _, FileTree.readText_writeText hboth,
    statements_append hs hparsed₁ hparsed₂, ?_⟩
  -- The second part comes after a table that it does not read, and was run from an empty one.
  rw [runStatements_append, hstatements₁]
  refine (runStatements_over assigned₁ hinclude _ ⟨env₁, NameMap.empty⟩).trans ?_
  rw [hshifted]
  rfl

/-! ## A script in two parts -/

/-- A directory with a script that others include. -/
def sampleBase : FileTree :=
  ⟨.directory [("etc", .directory [("sub.conf", .file (.text "B=\"${A}$A\"\n"))])], ⟨"/"⟩⟩

def samplePath : Path :=
  ⟨"/etc/make.conf"⟩

/-- The directory with another script. -/
def sampleTree (text : String) : FileTree :=
  sampleBase.place ["etc", "make.conf"] (.file (.text text))

/-- The first part includes the script of the directory and ends with a comment. -/
def sampleFirst : String :=
  "A=a\nsource sub.conf # C=\"\n"

def sampleSecond : String :=
  "C=\"c${B}\nc\"; A=z"

theorem writeText_sampleTree (text : String) :
    sampleBase.writeText samplePath text = .ok (sampleTree text) := by
  rfl

theorem statements_sampleFirst :
    statements sampleFirst = .ok [⟨1, .assign [("A", .scalar [.char 'a'])]⟩,
      ⟨2, .source ("sub.conf".toList.map .char)⟩] := by
  decide +kernel

theorem statements_sampleSecond : statements sampleSecond =
    .ok [⟨1, .assign [("C", .scalar [.char 'c', .expansion "B", .char '\n', .char 'c'])]⟩,
      ⟨2, .assign [("A", .scalar [.char 'z'])]⟩] := by
  decide +kernel

/-- The environment that the first part leaves, and its table. -/
def sampleEnv : Variables :=
  .ofList [("A", "a"), ("B", "aa")]

/-- The table of the second part. -/
def sampleAssigned : Variables :=
  .ofList [("A", "z"), ("C", "caa\nc")]

/-- The only script that the sample includes is the other one of the directory. -/
theorem not_sameFile_sampleFirst (q : Path)
    (h : RefersTo (sampleTree sampleFirst) (.configuration true) samplePath NameMap.empty q) :
    ¬ (sampleTree sampleFirst).SameFile q samplePath := by
  obtain ⟨text, parsed, hread, hparsed, hincludes⟩ := h
  have hwritten := FileTree.readText_writeText (writeText_sampleTree sampleFirst)
  obtain rfl : sampleFirst = text := Except.ok.inj (hwritten.symm.trans hread)
  obtain rfl := Except.ok.inj (statements_sampleFirst.symm.trans hparsed)
  have hreaches : ∀ {include_ : Option (Path → State → Run)} {r : Path} {s t : State},
      Reaches (.configuration true) include_ samplePath
        [⟨1, .assign [("A", .scalar [.char 'a'])]⟩, ⟨2, .source ("sub.conf".toList.map .char)⟩]
        s r t → r = ⟨"/etc/sub.conf"⟩ := by
    rintro include_ r s t ⟨before, line, word, after, hparsed, -, rfl⟩
    obtain rfl : word = "sub.conf".toList.map .char := by
      rcases before with _ | ⟨_, _ | ⟨_, before⟩⟩ <;> simp_all
    rw [Word.expand_map_char]
    decide +kernel
  have hq : q = ⟨"/etc/sub.conf"⟩ := by
    cases hincludes with
    | direct hreach => exact hreaches hreach
    | through hreach hincluded hstatements hrest =>
      obtain rfl := hreaches hreach
      have htext : (sampleTree sampleFirst).readText ⟨"/etc/sub.conf"⟩ =
          .ok "B=\"${A}$A\"\n" := by decide +kernel
      have hsub : statements "B=\"${A}$A\"\n" =
          .ok [⟨1, .assign [("B", .scalar [.expansion "A", .expansion "A"])]⟩] := by
        decide +kernel
      obtain rfl := Except.ok.inj (htext.symm.trans hincluded)
      obtain rfl := Except.ok.inj (hsub.symm.trans hstatements)
      exact absurd hrest (not_includes_of_ne_source (by simp))
  subst hq
  rintro ⟨subTrail, trail, hsub, htrail, hplace⟩
  have hsubPlace : ((sampleTree sampleFirst).trailOf .existing ⟨"/etc/sub.conf"⟩).map
      FileTree.placeOf = .ok ["etc", "sub.conf"] := by rfl
  have hplaceOf : ((sampleTree sampleFirst).trailOf .existing samplePath).map FileTree.placeOf =
      .ok ["etc", "make.conf"] := by rfl
  simp [hsub, htrail, hplace, Except.map] at hsubPlace hplaceOf
  simp [hsubPlace] at hplaceOf

theorem not_refersTo_sampleSecond (env : Variables) (q : Path) :
    ¬ RefersTo (sampleTree sampleSecond) (.configuration true) samplePath env q := by
  rintro ⟨text, parsed, hread, hparsed, hincludes⟩
  have hwritten := FileTree.readText_writeText (writeText_sampleTree sampleSecond)
  obtain rfl : sampleSecond = text := Except.ok.inj (hwritten.symm.trans hread)
  obtain rfl := Except.ok.inj (statements_sampleSecond.symm.trans hparsed)
  exact not_includes_of_ne_source (by simp) hincludes

/-- The parts of the sample and the sample itself, which assigns to one variable in both. -/
theorem run_sampleFirst_append_sampleSecond :
    run (sampleTree sampleFirst) (.configuration true) samplePath .empty =
        (sampleEnv, .ok sampleEnv) ∧
      run (sampleTree sampleSecond) (.configuration true) samplePath sampleEnv =
        (sampleEnv.overlay sampleAssigned, .ok sampleAssigned) ∧
      run (sampleTree (sampleFirst ++ sampleSecond)) (.configuration true) samplePath .empty =
        (sampleEnv.overlay sampleAssigned, .ok (sampleEnv.overlay sampleAssigned)) := by
  have hends : EndsLine sampleFirst.toList :=
    ⟨"A=a\nsource sub.conf # C=\"".toList, by decide, by decide⟩
  have hfirst : run (sampleTree sampleFirst) (.configuration true) samplePath .empty =
      (sampleEnv, .ok sampleEnv) := by decide +kernel
  have hsecond : run (sampleTree sampleSecond) (.configuration true) samplePath sampleEnv =
      (sampleEnv.overlay sampleAssigned, .ok sampleAssigned) := by decide +kernel
  exact ⟨hfirst, hsecond, run_append (.inr hends) (writeText_sampleTree sampleFirst)
    (writeText_sampleTree sampleSecond) (writeText_sampleTree (sampleFirst ++ sampleSecond))
    not_sameFile_sampleFirst (fun q hq => absurd hq (not_refersTo_sampleSecond sampleEnv q))
    hfirst hsecond⟩

end Script
end EbuildGraph
