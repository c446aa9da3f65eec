import EbuildGraph.FileTree
import EbuildGraph.Script.Parser

/-!
# Running scripts

Every assignment changes two tables: the environment, which expansions read, and
the table of what the script assigned, which is its result.  A failure keeps the
changes made before it.

Main definitions:

- {lit}`Script.run`: runs the script at a path.
- {lit}`Script.mergeDefaults`: puts the assignments of a profile's defaults on top
  of a table.
-/

namespace EbuildGraph
namespace Script

/-- What a script may do besides assigning words. -/
inductive Dialect where
  /-- A configuration file, which may include others if allowed. -/
  | configuration (sourceAllowed : Bool)
  /-- An ebuild, which may assign arrays and name eclasses. -/
  | ebuild
deriving DecidableEq

/-- Whether a script may include others. -/
def Dialect.sourceAllowed : Dialect → Bool
  | configuration allowed => allowed
  | ebuild => false

/-- The environment and what has been assigned. -/
structure State where
  env : Variables
  assigned : Variables
deriving DecidableEq

/-- Both tables with a variable assigned. -/
def State.assign (s : State) (name value : String) : State :=
  ⟨s.env.insert name value, s.assigned.insert name value⟩

/-- A state and the failure that ended the run, if there was one. -/
abbrev Run := State × Option Error

/-- Goes on unless the run has failed. -/
def Run.andThen (r : Run) (next : State → Run) : Run :=
  match r.2 with
  | none => next r.1
  | some _ => r

/-- The value of a right-hand side.  The words of an array are joined with bars;
only ebuilds have arrays. -/
def Value.evaluate (dialect : Dialect) (env : Variables) : Value → Option String
  | scalar word => some (word.expand env)
  | array words =>
    match dialect with
    | .ebuild => some (String.intercalate "|" (words.map (Word.expand env)))
    | .configuration _ => none

/-- Runs assignments from left to right. -/
def runAssignments (dialect : Dialect) (path : Path) (line : Nat) :
    List (String × Value) → State → Run
  | [], s => (s, none)
  | (name, value) :: rest, s =>
    match value.evaluate dialect s.env with
    | none => (s, some (.ebuildOnly path line (.array name)))
    | some text => runAssignments dialect path line rest (s.assign name text)

/-- The path that a script means by a path: relative ones start at the script's
directory. -/
def resolveSource (path target : Path) : Path :=
  if target.isAbsolute then target
  else
    match path.parent? with
    | some dir => dir.join target
    | none => target

/-- The names in {lit}`INHERITED` with further ones behind them. -/
def extendInherited (s : State) (eclasses : List Word) : String :=
  let start := Text.unwords (Variables.list s.assigned "INHERITED")
  (eclasses.map (Word.expand s.env)).foldl
    (fun acc name => if acc = "" then name else acc ++ " " ++ name) start

/-- Runs one statement.  The given function runs included scripts; without one they
are nested too deep. -/
def runStatement (dialect : Dialect) (include_ : Option (Path → State → Run)) (path : Path)
    (statement : Statement) (s : State) : Run :=
  match statement.command with
  | .assign assignments => runAssignments dialect path statement.line assignments s
  | .source word =>
    if !dialect.sourceAllowed then (s, some (.line path statement.line .sourceForbidden))
    else
      match include_ with
      | none => (s, some (.line path statement.line .sourceTooDeep))
      | some run => run (resolveSource path ⟨word.expand s.env⟩) s
  | .inherit eclasses =>
    match dialect with
    | .configuration _ => (s, some (.ebuildOnly path statement.line .inherit))
    | .ebuild =>
      ({ s with assigned := s.assigned.insert "INHERITED" (extendInherited s eclasses) }, none)

/-- Runs statements in order until one fails. -/
def runStatements (dialect : Dialect) (include_ : Option (Path → State → Run)) (path : Path) :
    List Statement → State → Run
  | [], s => (s, none)
  | statement :: rest, s =>
    (runStatement dialect include_ path statement s).andThen
      (runStatements dialect include_ path rest)

/-- Reads a script and runs its statements. -/
def runFileWith (include_ : Option (Path → State → Run)) (tree : FileTree) (dialect : Dialect)
    (path : Path) (s : State) : Run :=
  match tree.readText path with
  | .error fault => (s, some (.file path fault))
  | .ok text =>
    match statements text with
    | .error (line, fault) => (s, some (.line path line fault))
    | .ok parsed => runStatements dialect include_ path parsed s

/-- Runs the script at a path; scripts may be nested to the given depth in it. -/
def runFile (tree : FileTree) (dialect : Dialect) : Nat → Path → State → Run
  | 0 => runFileWith none tree dialect
  | depth + 1 => runFileWith (some (runFile tree dialect depth)) tree dialect

/-- How deep scripts may include one another. -/
def maxDepth : Nat := 16

/-- Runs the script at a path.  The first table is the environment afterwards, the
second what was assigned or why the run failed. -/
def run (tree : FileTree) (dialect : Dialect) (path : Path) (env : Variables) :
    Variables × Except Error Variables :=
  let (s, failure) := runFile tree dialect maxDepth path ⟨env, NameMap.empty⟩
  (s.env, match failure with
    | none => .ok s.assigned
    | some err => .error err)

/-- Puts the assignments of a profile's defaults on top of a table.  Expansions in
them see the variables that do not add up. -/
def mergeDefaults (tree : FileTree) (path : Path) (vars : Variables) : Except Error Variables :=
  (run tree (.configuration false) path (Variables.dropIncremental vars)).2.map
    (Variables.merge vars)

end Script
end EbuildGraph
