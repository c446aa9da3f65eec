import EbuildGraph.Proofs.Script.Inclusion
import EbuildGraph.Proofs.Script.Reading
import EbuildGraph.Proofs.Script.Repetition
import EbuildGraph.Proofs.Text.Runs

/-!
# Writing variables as a script

A value is written between double quotes, with a backslash before each character that would mean
something else there.  Every character of it is read back as itself, a line feed among them,
so a script of such assignments has exactly these values as its table.

Main definitions:

- {lit}`quoteChar`: how a character is written between double quotes.
- {lit}`assignmentText`: pairs of names and values as a script.

Main results:

- Theorem {lit}`readDoubleQuoted_quoted`: a quoted value is read back.
- Theorem {lit}`statements_assignmentText`: the statements of such a script.
- Theorem {lit}`run_assignmentText`: what a run of it leaves.
-/

namespace EbuildGraph
namespace Script

/-! ## Writing -/

/-- How a character is written between double quotes. -/
def quoteChar (c : Char) : List Char :=
  if c = '"' || c = '\\' || c = '$' || c = '`' then ['\\', c] else [c]

/-- A variable with its value between double quotes, on a line. -/
def assignmentChars (p : String × String) : List Char :=
  p.1.toList ++ '=' :: '"' :: (p.2.toList.flatMap quoteChar ++ ['"', '\n'])

/-- Variables with their values, one after another. -/
def assignmentText (pairs : List (String × String)) : String :=
  String.ofList (pairs.flatMap assignmentChars)

/-- The command that a written variable is. -/
def assignmentOf (p : String × String) : Command :=
  .assign [(p.1, .scalar (p.2.toList.map .char))]

/-! ## Reading a value -/

/-- One character of a quoted value is read back. -/
theorem readQuotedPart_quoteChar (c : Char) (rest : List Char) :
    readQuotedPart (quoteChar c ++ rest) = .found [.char c] rest := by
  unfold quoteChar
  split
  · next hc =>
    have hfeed : c ≠ '\n' := by
      rintro rfl
      cases hc
    simp only [List.cons_append, List.nil_append, readQuotedPart]
    simp [quotedEscape, hfeed, hc]
  · next hc =>
    simp only [Bool.or_eq_true, decide_eq_true_eq, not_or] at hc
    simp [readQuotedPart, hc]

theorem repeats_quoted (cs rest : List Char) :
    Repeats readQuotedPart (cs.flatMap quoteChar ++ '"' :: rest) (cs.map fun c => [.char c])
      ('"' :: rest) := by
  induction cs with
  | nil => exact .stop rfl
  | cons c cs ih =>
    have hfirst := readQuotedPart_quoteChar c (cs.flatMap quoteChar ++ '"' :: rest)
    rw [List.flatMap_cons, List.append_assoc]
    exact .next hfirst ih

/-- A quoted value is read back. -/
theorem readDoubleQuoted_quoted (cs rest : List Char) :
    readDoubleQuoted (cs.flatMap quoteChar ++ '"' :: rest) = .found (cs.map .char) rest := by
  have hparts := (readParts_eq_found_iff readQuotedPart_shrinks).2
    ⟨_, repeats_quoted cs rest, rfl⟩
  have hword : (cs.map fun c => [Piece.char c]).flatten = cs.map .char := by
    rw [← List.flatMap_def, List.map_eq_flatMap]
  rw [readDoubleQuoted, hparts, hword]
  rfl

/-! ## Reading an assignment -/

/-- The name in front of a written value. -/
theorem splitName?_of_isVariableName {name : String} (h : IsVariableName name)
    (rest : List Char) : splitName? (name.toList ++ '=' :: rest) = some (name, '=' :: rest) := by
  obtain ⟨c, others, hname, hc, hothers⟩ := h
  have hhead : ∀ d ∈ ('=' :: rest).head?, isNameChar d = false := by
    rintro d ⟨⟩
    rfl
  rw [hname, List.cons_append, splitName?, if_pos hc,
    Text.takeWhile_append_of_head hothers hhead, Text.dropWhile_append_of_head hothers hhead,
    ← hname, String.ofList_toList]

/-- A written value is a word, up to the line feed behind it. -/
theorem readWordParts_quoted (cs rest : List Char) :
    readWordParts ('"' :: (cs.flatMap quoteChar ++ '"' :: '\n' :: rest)) =
      .found (cs.map .char) ('\n' :: rest) := by
  have hquoted := readDoubleQuoted_quoted cs ('\n' :: rest)
  have hparts : Repeats readWordPart ('"' :: (cs.flatMap quoteChar ++ '"' :: '\n' :: rest))
      [cs.map .char] ('\n' :: rest) := .next hquoted (.stop rfl)
  exact (readParts_eq_found_iff readWordPart_shrinks).2 ⟨_, hparts, by simp⟩

section Assignment

variable {p : String × String} (hname : IsVariableName p.1) (rest : List Char)
include hname

theorem readAssignment_assignmentChars : readAssignment (assignmentChars p ++ rest) =
    .found (p.1, .scalar (p.2.toList.map .char)) ('\n' :: rest) := by
  have hword := readWordParts_quoted p.2.toList rest
  have hsplit := splitName?_of_isVariableName hname
    ('"' :: (p.2.toList.flatMap quoteChar ++ '"' :: '\n' :: rest))
  have hchars : assignmentChars p ++ rest =
      p.1.toList ++ '=' :: '"' :: (p.2.toList.flatMap quoteChar ++ '"' :: '\n' :: rest) := by
    simp [assignmentChars]
  rw [hchars, readAssignment, hsplit]
  simp [readArray, hword, Outcome.map, Outcome.orElse]

/-- A name is no keyword, not even in front of an equals sign. -/
theorem afterKeyword?_assignmentChars (keyword : String)
    (hkeyword : keyword.toList.all isNameChar = true) :
    afterKeyword? keyword (assignmentChars p ++ rest) = none := by
  rw [Option.eq_none_iff_forall_ne_some]
  intro found hfound
  obtain ⟨c, others, hchars, hc, -⟩ := afterKeyword?_eq_some_iff.1 hfound
  have hspace : ∀ d ∈ (c :: others).head?, isNameChar d = false := by
    rintro d ⟨⟩
    rcases hc with rfl | rfl <;> rfl
  have hequals : ∀ d ∈ ('=' :: '"' :: (p.2.toList.flatMap quoteChar ++ '"' :: '\n' :: rest)).head?,
      isNameChar d = false := by
    rintro d ⟨⟩
    rfl
  -- What is left behind the characters of names starts with different characters.
  have hdrop := congrArg (List.dropWhile isNameChar) hchars
  rw [Text.dropWhile_append_of_head (List.all_eq_true.1 hkeyword) hspace, assignmentChars] at hdrop
  simp only [List.append_assoc, List.cons_append, List.nil_append] at hdrop
  rw [Text.dropWhile_append_of_head hname.isNameChar hequals] at hdrop
  obtain ⟨rfl, -⟩ := List.cons.inj hdrop
  simp at hc

theorem readCommand_assignmentChars :
    readCommand (assignmentChars p ++ rest) = .found (assignmentOf p) ('\n' :: rest) := by
  have hsource := afterKeyword?_assignmentChars hname rest "source" rfl
  have hinherit := afterKeyword?_assignmentChars hname rest "inherit" rfl
  have hassignment : withSpace readAssignment (assignmentChars p ++ rest) =
      .found (p.1, .scalar (p.2.toList.map .char)) ('\n' :: rest) := by
    rw [withSpace, readAssignment_assignmentChars hname rest]
    rfl
  have hassignments : readAssignments (assignmentChars p ++ rest) =
      .found (assignmentOf p) ('\n' :: rest) :=
    readAssignments_eq_found_iff.2 ⟨_, [], .next hassignment (.stop rfl), rfl⟩
  simp [readCommand, readSource, readInherit, hsource, hinherit, hassignments, Outcome.orElse,
    Outcome.required]

theorem readStatement_assignmentChars :
    readStatement (assignmentChars p ++ rest) = .found (assignmentOf p) ('\n' :: rest) := by
  rw [readStatement, readCommand_assignmentChars hname rest]
  rfl

end Assignment

/-! ## Reading a script -/

/-- No separator stands in front of a name. -/
theorem skipSeparators_of_isNameStart {c : Char} (hc : isNameStart c = true)
    (others : List Char) : skipSeparators (c :: others) = c :: others := by
  have hne : ∀ d : Char, isNameStart d = false → c ≠ d := by
    rintro d hd rfl
    simp [hd] at hc
  have hslash := hne '\\' rfl
  have hhash := hne '#' rfl
  have hseparator : (isSpace c || c == '\n' || c == ';') = false := by
    simp [isSpace, hne ' ' rfl, hne '\t' rfl, hne '\r' rfl, hne '\n' rfl, hne ';' rfl]
  rw [skipSeparators, skipComments]
  · simp [hhash, hseparator]
  · simp [hslash]

/-- The statements of a script of written variables. -/
theorem exists_parses_assignmentText {pairs : List (String × String)}
    (hnames : ∀ p ∈ pairs, IsVariableName p.1) (input : List Char) :
    ∃ parsed, Parses input (pairs.flatMap assignmentChars) parsed ∧
      parsed.map Statement.command = pairs.map assignmentOf := by
  induction pairs with
  | nil => exact ⟨[], .done rfl, rfl⟩
  | cons p pairs ih =>
    obtain ⟨hname, hothers⟩ := List.forall_mem_cons.1 hnames
    obtain ⟨others, hparses, hcommands⟩ := ih hothers
    have hread := readStatement_assignmentChars hname (pairs.flatMap assignmentChars)
    have hchars : ∃ c tail, isNameStart c = true ∧
        assignmentChars p ++ pairs.flatMap assignmentChars = c :: tail := by
      obtain ⟨c, tail, hp, hc, -⟩ := hname
      exact ⟨c, _, hc, by rw [assignmentChars, hp]; rfl⟩
    obtain ⟨c, tail, hc, hchars⟩ := hchars
    rw [hchars] at hread
    -- The line feed that ends the statement is a separator in front of the next.
    have hfeed : Parses input ('\n' :: pairs.flatMap assignmentChars) others :=
      hparses.of_skipSeparators rfl
    rw [List.flatMap_cons, hchars]
    exact ⟨_, .next (skipSeparators_of_isNameStart hc tail) hread hfeed, by simp [hcommands]⟩

/-! ## Running a script -/

section Running

variable {dialect : Dialect} {include_ : Option (Path → State → Run)} {path : Path}

theorem runStatement_assignmentOf (line : Nat) (p : String × String) (s : State) :
    runStatement dialect include_ path ⟨line, assignmentOf p⟩ s = (s.assign p.1 p.2, none) := by
  simp [runStatement, assignmentOf, runAssignments, Value.evaluate, Word.expand_map_char]

/-- Statements of written variables assign their values one after another. -/
theorem runStatements_of_map_command {parsed : List Statement} {pairs : List (String × String)}
    (h : parsed.map Statement.command = pairs.map assignmentOf) (s : State) :
    runStatements dialect include_ path parsed s =
      (⟨s.env.insertAll pairs, s.assigned.insertAll pairs⟩, none) := by
  induction pairs generalizing parsed s with
  | nil =>
    obtain rfl := List.map_eq_nil_iff.1 h
    rfl
  | cons p pairs ih =>
    cases parsed with
    | nil => cases h
    | cons st others =>
      obtain ⟨line, command⟩ := st
      obtain ⟨hcommand, hothers⟩ := List.cons.inj h
      obtain rfl : command = assignmentOf p := hcommand
      rw [runStatements, runStatement_assignmentOf]
      exact ih hothers (s.assign p.1 p.2)

/-- A script of written variables has their table, whatever it runs in, and leaves the
environment with this table on top. -/
theorem run_assignmentText {tree : FileTree} {pairs : List (String × String)}
    (hnames : ∀ p ∈ pairs, IsVariableName p.1)
    (hread : tree.readText path = .ok (assignmentText pairs)) (dialect : Dialect)
    (env : Variables) :
    run tree dialect path env =
      (env.overlay (NameMap.ofList pairs), .ok (NameMap.ofList pairs)) := by
  have hchars : (assignmentText pairs).toList = pairs.flatMap assignmentChars := by
    simp [assignmentText]
  obtain ⟨parsed, hparses, hcommands⟩ :=
    exists_parses_assignmentText hnames (pairs.flatMap assignmentChars)
  have hstatements : statements (assignmentText pairs) = .ok parsed := by
    rw [statements_eq_ok_iff, hchars]
    exact hparses
  rw [run_eq_iff, runFile_eq, runFileWith_eq_iff]
  refine ⟨_, parsed, hread, hstatements, ?_⟩
  rw [runStatements_of_map_command hcommands]
  simp only [NameMap.insertAll_eq_overlay env]
  rfl

end Running

/-- A keyword and another name, with values that spread over lines or would be commands. -/
def samplePairs : List (String × String) :=
  [("source", "a \\\n\"b\""), ("_x1", "#;'$(A)${B}`c`\\"), ("source", "\n\n")]

def sampleWritten : FileTree :=
  ⟨.directory [("vars", .file (.text (assignmentText samplePairs)))], ⟨"/"⟩⟩

/-- The sample as it is written and as it is read back, in an ebuild. -/
theorem run_sampleWritten :
    assignmentText samplePairs =
        "source=\"a \\\\\n\\\"b\\\"\"\n_x1=\"#;'\\$(A)\\${B}\\`c\\`\\\\\"\nsource=\"\n\n\"\n" ∧
      (∀ p ∈ samplePairs, IsVariableName p.1) ∧
      sampleWritten.readText ⟨"/vars"⟩ = .ok (assignmentText samplePairs) ∧
      run sampleWritten .ebuild ⟨"/vars"⟩ (.ofList [("A", "a"), ("_x1", "b")]) =
        (.ofList [("A", "a"), ("_x1", "#;'$(A)${B}`c`\\"), ("source", "\n\n")],
          .ok (.ofList [("_x1", "#;'$(A)${B}`c`\\"), ("source", "\n\n")])) := by
  have hnames : ∀ p ∈ samplePairs, IsVariableName p.1 := by
    have hsource : IsVariableName "source" :=
      ⟨'s', "ource".toList, rfl, rfl, List.all_eq_true.1 rfl⟩
    have hother : IsVariableName "_x1" := ⟨'_', "x1".toList, rfl, rfl, List.all_eq_true.1 rfl⟩
    simp [samplePairs, hsource, hother]
  have hread : sampleWritten.readText ⟨"/vars"⟩ = .ok (assignmentText samplePairs) := rfl
  have hrun := run_assignmentText hnames hread .ebuild (.ofList [("A", "a"), ("_x1", "b")])
  refine ⟨by decide, hnames, hread, hrun.trans ?_⟩
  decide

end Script
end EbuildGraph
