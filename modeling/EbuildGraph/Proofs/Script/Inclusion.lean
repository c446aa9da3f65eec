import EbuildGraph.Script.Evaluation

/-!
# Included scripts

A run reads the script it was started with and those that source statements lead to.  Where
another tree holds the same text at each of these paths, the script runs there to the same end.

Main definitions:

- {lit}`includer`: how scripts are run that are included at a depth.
- {lit}`Reaches`: the source statements that a run of statements comes to.
- {lit}`Includes`, {lit}`RefersTo`: the paths that source statements refer to, directly or through
  other scripts.

Main results:

- Theorem {lit}`runStatements_of_agrees`: included scripts that run alike may be exchanged.
- Theorem {lit}`runStatements_of_reads`: statements run alike in a tree that has the texts of the
  scripts that they include.
-/

namespace EbuildGraph
namespace Script

variable {tree : FileTree} {dialect : Dialect} {path q : Path} {s s' t : State}

/-- How scripts are run that are included by one at a depth. -/
def includer (tree : FileTree) (dialect : Dialect) : Nat → Option (Path → State → Run)
  | 0 => none
  | depth + 1 => some (runFile tree dialect depth)

/-- A file is run with an includer that has one level of depth less to give. -/
theorem runFile_eq (tree : FileTree) (dialect : Dialect) (depth : Nat) :
    runFile tree dialect depth = runFileWith (includer tree dialect depth) tree dialect := by
  cases depth <;> rfl

/-- Characters stand for themselves. -/
theorem Word.expand_map_char (env : Variables) (cs : List Char) :
    Word.expand env (cs.map .char) = String.ofList cs := by
  have hchars : (cs.map Piece.char).flatMap (Piece.expand env) = cs := by
    induction cs with
    | nil => rfl
    | cons c cs ih => simpa [Piece.expand] using ih
  rw [Word.expand, hchars]

/-- A run that succeeds read its script and ran its statements. -/
theorem run_eq_iff {tree : FileTree} {dialect : Dialect} {env env' assigned : Variables} :
    run tree dialect path env = (env', .ok assigned) ↔
      runFile tree dialect maxDepth path ⟨env, NameMap.empty⟩ = (⟨env', assigned⟩, none) := by
  unfold run
  obtain ⟨⟨found, table⟩, failure⟩ := runFile tree dialect maxDepth path ⟨env, NameMap.empty⟩
  cases failure with
  | none => simp
  | some err => simp

/-- A script that is run to its end was read, and its statements were. -/
theorem runFileWith_eq_iff {include_ : Option (Path → State → Run)} :
    runFileWith include_ tree dialect path s = (s', none) ↔
      ∃ text parsed, tree.readText path = .ok text ∧ statements text = .ok parsed ∧
        runStatements dialect include_ path parsed s = (s', none) := by
  unfold runFileWith
  cases hread : tree.readText path with
  | error fault => simp
  | ok text =>
    cases hparsed : statements text with
    | error fault => simp [hparsed]
    | ok parsed => simp [hparsed]

/-- Statements succeed one after the other. -/
theorem runStatements_cons_eq_iff {include_ : Option (Path → State → Run)} {st : Statement}
    {rest : List Statement} :
    runStatements dialect include_ path (st :: rest) s = (s', none) ↔
      ∃ t, runStatement dialect include_ path st s = (t, none) ∧
        runStatements dialect include_ path rest t = (s', none) := by
  rw [runStatements, Run.andThen]
  obtain ⟨t, failure⟩ := runStatement dialect include_ path st s
  cases failure with
  | none => simp
  | some err => simp

/-! ## Source statements -/

/-- Whether a run of statements comes to a source statement, with the path that it refers to
and the state in which it does. -/
def Reaches (dialect : Dialect) (include_ : Option (Path → State → Run)) (path : Path)
    (parsed : List Statement) (s : State) (q : Path) (t : State) : Prop :=
  ∃ before line word after, parsed = before ++ ⟨line, .source word⟩ :: after ∧
    runStatements dialect include_ path before s = (t, none) ∧
    q = resolveSource path ⟨word.expand t.env⟩

/-- What the later statements reach is reached behind the first one, if it succeeds. -/
theorem Reaches.cons {include_ : Option (Path → State → Run)} {st : Statement}
    {rest : List Statement} (hfirst : runStatement dialect include_ path st s = (s', none))
    (h : Reaches dialect include_ path rest s' q t) :
    Reaches dialect include_ path (st :: rest) s q t := by
  obtain ⟨before, line, word, after, rfl, hbefore, rfl⟩ := h
  exact ⟨st :: before, line, word, after, rfl,
    runStatements_cons_eq_iff.2 ⟨s', hfirst, hbefore⟩, rfl⟩

/-- Whether statements that are run at a depth of nesting come to a source statement that
refers to a path, directly or through the scripts that they include. -/
inductive Includes (tree : FileTree) (dialect : Dialect) :
    Nat → Path → List Statement → State → Path → Prop where
  | direct {depth : Nat} {path q : Path} {parsed : List Statement} {s t : State} :
      Reaches dialect (includer tree dialect depth) path parsed s q t →
        Includes tree dialect depth path parsed s q
  | through {depth : Nat} {path q r : Path} {parsed included : List Statement} {s t : State}
      {text : String} : Reaches dialect (includer tree dialect (depth + 1)) path parsed s q t →
      tree.readText q = .ok text → statements text = .ok included →
      Includes tree dialect depth q included t r →
        Includes tree dialect (depth + 1) path parsed s r

/-- Whether a run of the script at a path comes to a source statement that refers to another
path, directly or through the scripts that it includes. -/
def RefersTo (tree : FileTree) (dialect : Dialect) (path : Path) (env : Variables)
    (q : Path) : Prop :=
  ∃ text parsed, tree.readText path = .ok text ∧ statements text = .ok parsed ∧
    Includes tree dialect maxDepth path parsed ⟨env, NameMap.empty⟩ q

/-- Statements of which none includes a script refer to no path. -/
theorem not_includes_of_ne_source {depth : Nat} {parsed : List Statement}
    (h : ∀ st ∈ parsed, ∀ word, st.command ≠ .source word) :
    ¬ Includes tree dialect depth path parsed s q := by
  have hreaches : ∀ {include_ : Option (Path → State → Run)} {r : Path} {t : State},
      ¬ Reaches dialect include_ path parsed s r t := by
    rintro include_ r t ⟨before, line, word, after, rfl, -, -⟩
    exact h _ (List.mem_append_right _ List.mem_cons_self) word rfl
  rintro (⟨hreach⟩ | ⟨hreach, -, -, -⟩)
  · exact hreaches hreach
  · exact hreaches hreach

/-! ## Running in another tree -/

/-- A statement runs alike if the script that it includes does. -/
theorem runStatement_of_agrees {include_ include' : Option (Path → State → Run)}
    {st : Statement} (h : runStatement dialect include_ path st s = (s', none))
    (hagree : ∀ word, st.command = .source word → ∀ run ∈ include_, ∃ run' ∈ include',
      ∀ t, run (resolveSource path ⟨word.expand s.env⟩) s = (t, none) →
        run' (resolveSource path ⟨word.expand s.env⟩) s = (t, none)) :
    runStatement dialect include' path st s = (s', none) := by
  obtain ⟨line, command⟩ := st
  cases command with
  | assign assignments => exact h
  | source word =>
    cases include_ with
    | none => cases hallowed : dialect.sourceAllowed <;> simp [runStatement, hallowed] at h
    | some run =>
      obtain ⟨run', hrun', hsame⟩ := hagree word rfl run rfl
      cases hallowed : dialect.sourceAllowed with
      | false => simp [runStatement, hallowed] at h
      | true =>
        have hrun : run (resolveSource path ⟨word.expand s.env⟩) s = (s', none) := by
          simpa [runStatement, hallowed] using h
        obtain rfl : include' = some run' := hrun'
        simpa [runStatement, hallowed] using hsame s' hrun
  | inherit eclasses => exact h

/-- Statements run alike if the scripts that they include do. -/
theorem runStatements_of_agrees {include_ include' : Option (Path → State → Run)}
    {parsed : List Statement} (h : runStatements dialect include_ path parsed s = (s', none))
    (hagree : ∀ q t, Reaches dialect include_ path parsed s q t → ∀ run ∈ include_,
      ∃ run' ∈ include', ∀ t', run q t = (t', none) → run' q t = (t', none)) :
    runStatements dialect include' path parsed s = (s', none) := by
  induction parsed generalizing s with
  | nil => exact h
  | cons st rest ih =>
    obtain ⟨t, hfirst, hrest⟩ := runStatements_cons_eq_iff.1 h
    refine runStatements_cons_eq_iff.2 ⟨t, runStatement_of_agrees hfirst ?_, ih hrest ?_⟩
    · rintro word hword
      obtain ⟨line, command⟩ := st
      obtain rfl : command = .source word := hword
      exact hagree _ s ⟨[], line, word, rest, rfl, rfl, rfl⟩
    · intro q u hreach
      exact hagree q u (hreach.cons hfirst)

/-- Statements run alike in a tree that has the texts of the scripts that they include. -/
theorem runStatements_of_reads {tree' : FileTree} {depth : Nat} {parsed : List Statement}
    (h : runStatements dialect (includer tree dialect depth) path parsed s = (s', none))
    (hreads : ∀ q, Includes tree dialect depth path parsed s q →
      ∀ text, tree.readText q = .ok text → tree'.readText q = .ok text) :
    runStatements dialect (includer tree' dialect depth) path parsed s = (s', none) := by
  -- Each script that is included is run at a smaller depth, from the state that is reached there.
  induction depth generalizing path parsed s s' with
  | zero => exact runStatements_of_agrees h nofun
  | succ depth ih =>
    refine runStatements_of_agrees h fun q t hreach run hrun => ?_
    obtain rfl : runFile tree dialect depth = run := Option.some.inj hrun
    refine ⟨runFile tree' dialect depth, rfl, fun t' hincluded => ?_⟩
    rw [runFile_eq, runFileWith_eq_iff] at hincluded ⊢
    obtain ⟨text, included, hread, hparsed, hrest⟩ := hincluded
    exact ⟨text, included, hreads q (.direct hreach) text hread, hparsed,
      ih hrest fun r hr => hreads r (.through hreach hread hparsed hr)⟩

end Script
end EbuildGraph
