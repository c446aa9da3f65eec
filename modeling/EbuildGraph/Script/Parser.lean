import EbuildGraph.Grammar
import EbuildGraph.Script.Basic

/-!
# Reading scripts

A script is a list of statements between line feeds, semicolons and comments.  A
word is made of bare characters, quoted strings, escapes and expansions.  Anything
else a shell would understand is refused.

Main definitions:

- {lit}`readWordParts`, {lit}`readWord`: a word that may be empty, and one that has
  at least one part.
- {lit}`readStatement`: one command.
- {lit}`statements`: all statements of a script.
-/

namespace EbuildGraph
namespace Script

/-- What a rule for some part of a script reports. -/
abbrev Reading (α : Type) := Outcome LineFault α

/-- Says what was being read where a part stopped without saying so. -/
def whileReading {α : Type} (label : String) (o : Reading α) : Reading α :=
  o.mapFault fun fault => if fault = .unreadable then .reading label else fault

/-- Whether a character stands for itself outside quotes. -/
def isUnquotedChar (c : Char) : Bool :=
  !Text.isBlank c &&
    !(c == ';' || c == '"' || c == '\'' || c == '$' || c == '\\' || c == '`' || c == '(' ||
      c == ')' || c == '|' || c == '&' || c == '<' || c == '>')

/-- Whether a character may start the name of a variable. -/
def isNameStart (c : Char) : Bool :=
  c.isAlpha || c == '_'

/-- Whether a character may follow in the name of a variable. -/
def isNameChar (c : Char) : Bool :=
  c.isAlphanum || c == '_'

/-- Whether a character separates words on a line. -/
def isSpace (c : Char) : Bool :=
  c == ' ' || c == '\t' || c == '\r'

/-- Skips the space within a statement: spaces and line continuations. -/
def skipSpace : List Char → List Char
  | [] => []
  | '\\' :: '\n' :: rest => skipSpace rest
  | c :: rest => if isSpace c then skipSpace rest else c :: rest

/-- Skips space, continuations and comments.  A comment ends before a line feed. -/
def skipComments (isSeparator : Char → Bool) (inComment : Bool) : List Char → List Char
  | [] => []
  | '\\' :: '\n' :: rest => skipComments isSeparator false rest
  | c :: rest =>
    if inComment then skipComments isSeparator (c != '\n') rest
    else if c = '#' then skipComments isSeparator true rest
    else if isSeparator c then skipComments isSeparator false rest
    else c :: rest

/-- Skips what may stand between two words of an array. -/
def skipArraySpace (cs : List Char) : List Char :=
  skipComments (fun c => isSpace c || c == '\n') false cs

/-- Skips what may stand between two statements. -/
def skipSeparators (cs : List Char) : List Char :=
  skipComments (fun c => isSpace c || c == '\n' || c == ';') false cs

/-- Splits the name of a variable off the front. -/
def splitName? : List Char → Option (String × List Char)
  | [] => none
  | c :: rest =>
    if isNameStart c then
      some (String.ofList (c :: rest.takeWhile isNameChar), rest.dropWhile isNameChar)
    else none

/-- Reads what follows a dollar sign: a name, or a name in braces. -/
def readExpansion (cs : List Char) : Reading Piece :=
  match cs with
  | '\x7b' :: rest =>
    match splitName? rest with
    | some (name, '\x7d' :: rest) => .found (.expansion name) rest
    | _ => .broken (.reading "variable expansion") cs
  | _ =>
    match splitName? cs with
    | some (name, rest) => .found (.expansion name) rest
    | none => .broken (.reading "variable expansion") cs

/-- Reads up to the closing single quote. -/
def readSingleQuoted (cs : List Char) : Reading Word :=
  match cs.dropWhile (· != '\'') with
  | _ :: rest => .found ((cs.takeWhile (· != '\'')).map .char) rest
  | [] => .broken (.reading "single-quoted string") []

/-- The pieces that a backslash before a character stands for between double quotes. -/
def quotedEscape (c : Char) : Word :=
  if c = '\n' then []
  else if c = '"' || c = '\\' || c = '$' || c = '`' then [.char c]
  else [.char '\\', .char c]

/-- Reads one step between double quotes; at the closing quote and at the end of the
input there is none. -/
def readQuotedPart : List Char → Reading Word
  | [] => .absent
  | '"' :: _ => .absent
  | '$' :: rest => (readExpansion rest).map ([·])
  | ['\\'] => .broken .unreadable []
  | '\\' :: c :: rest => .found (quotedEscape c) rest
  | '`' :: rest => .broken (.reading "command substitution") ('`' :: rest)
  | c :: rest => .found [.char c] rest

/-- Reads up to the given number of parts and joins them. -/
def readPartsUpTo (part : List Char → Reading Word) : Nat → List Char → Reading Word
  | 0, cs => .found [] cs
  | n + 1, cs =>
    match part cs with
    | .found pieces rest => (readPartsUpTo part n rest).map (pieces ++ ·)
    | .absent => .found [] cs
    | .broken fault rest => .broken fault rest

/-- Reads parts for as long as there are any and joins them. -/
def readParts (part : List Char → Reading Word) (cs : List Char) : Reading Word :=
  readPartsUpTo part (cs.length + 1) cs

/-- Reads up to the closing double quote. -/
def readDoubleQuoted (cs : List Char) : Reading Word :=
  whileReading "double-quoted string" <|
    (readParts readQuotedPart cs).andThen fun word rest =>
      match rest with
      | '"' :: rest => .found word rest
      | rest => .broken .unreadable rest

/-- Reads one part of a word outside quotes. -/
def readWordPart : List Char → Reading Word
  | [] => .absent
  | '\'' :: rest => readSingleQuoted rest
  | '"' :: rest => readDoubleQuoted rest
  | '$' :: rest => (readExpansion rest).map ([·])
  | ['\\'] => .broken .unreadable []
  | '\\' :: c :: rest => .found (if c = '\n' then [] else [.char c]) rest
  | '`' :: rest => .broken (.reading "command substitution") ('`' :: rest)
  | c :: rest => if isUnquotedChar c then .found [.char c] rest else .absent

/-- Reads a word that may be empty. -/
def readWordParts (cs : List Char) : Reading Word :=
  readParts readWordPart cs

/-- Reads a word that has at least one part. -/
def readWord (cs : List Char) : Reading Word :=
  (readWordPart cs).andThen fun first rest => (readWordParts rest).map (first ++ ·)

/-- Reads up to the given number of words. -/
def readWordsUpTo (skip : List Char → List Char) : Nat → List Char → Reading (List Word)
  | 0, cs => .found [] cs
  | n + 1, cs =>
    match readWord (skip cs) with
    | .found word rest => (readWordsUpTo skip n rest).map (word :: ·)
    | .absent => .found [] cs
    | .broken fault rest => .broken fault rest

/-- Reads words, each behind what the given function skips. -/
def readWords (skip : List Char → List Char) (cs : List Char) : Reading (List Word) :=
  readWordsUpTo skip (cs.length + 1) cs

/-- Reads an array: words in parentheses. -/
def readArray : List Char → Reading Value
  | '(' :: cs =>
    whileReading "array" <|
      (readWords skipArraySpace cs).andThen fun words rest =>
        match skipArraySpace rest with
        | ')' :: rest => .found (.array words) rest
        | rest => .broken .unreadable rest
  | _ => .absent

/-- Reads an assignment. -/
def readAssignment (cs : List Char) : Reading (String × Value) :=
  match splitName? cs with
  | some (name, '=' :: rest) =>
    ((readArray rest).orElse ((readWordParts rest).map .scalar)).map fun value => (name, value)
  | _ => .absent

/-- Reads up to the given number of assignments on a line. -/
def readAssignmentsUpTo : Nat → List Char → Reading (List (String × Value))
  | 0, cs => .found [] cs
  | n + 1, cs =>
    match readAssignment cs with
    | .found assignment rest =>
      (readAssignmentsUpTo n (skipSpace rest)).map (assignment :: ·)
    | .absent => .found [] cs
    | .broken fault rest => .broken fault rest

/-- Reads one or more assignments on a line. -/
def readAssignments (cs : List Char) : Reading Command :=
  match readAssignmentsUpTo (cs.length + 1) cs with
  | .found [] _ => .absent
  | o => o.map .assign

/-- What follows a keyword and at least one space. -/
def afterKeyword? (keyword : String) (cs : List Char) : Option (List Char) :=
  match keyword.toList.isPrefixOf? cs with
  | some (c :: rest) =>
    if c = ' ' || c = '\t' then some (rest.dropWhile fun c => c == ' ' || c == '\t') else none
  | _ => none

/-- Reads the command that includes another script. -/
def readSource (cs : List Char) : Reading Command :=
  match afterKeyword? "source" cs with
  | none => .absent
  | some rest =>
    whileReading "source argument" (((readWord rest).required .unreadable rest).map .source)

/-- Reads up to the given number of words, each with the space behind it. -/
def readArgumentsUpTo : Nat → List Char → Reading (List Word)
  | 0, cs => .found [] cs
  | n + 1, cs =>
    match readWord cs with
    | .found word rest => (readArgumentsUpTo n (skipSpace rest)).map (word :: ·)
    | .absent => .found [] cs
    | .broken fault rest => .broken fault rest

/-- Reads the command that names inherited eclasses. -/
def readInherit (cs : List Char) : Reading Command :=
  match afterKeyword? "inherit" cs with
  | none => .absent
  | some rest => (readArgumentsUpTo (rest.length + 1) rest).map .inherit

/-- Reads one command. -/
def readCommand (cs : List Char) : Reading Command :=
  (((readSource cs).orElse (readInherit cs)).orElse (readAssignments cs)).required
    (.reading "statement") cs

/-- Reads one command and checks that its statement ends. -/
def readStatement (cs : List Char) : Reading Command :=
  (readCommand cs).andThen fun command rest =>
    match skipSpace rest with
    | [] => .found command []
    | c :: rest =>
      if c = '\n' || c = ';' || c = '#' then .found command (c :: rest)
      else .broken .statementEnd (c :: rest)

/-- The line of the place in a text before the given rest. -/
def lineOf (input rest : List Char) : Nat :=
  (input.take (input.length - rest.length)).count '\n' + 1

/-- Reads up to the given number of statements of an input.  A failure is the line
and what is wrong there. -/
def statementsUpTo (input : List Char) :
    Nat → List Char → Except (Nat × LineFault) (List Statement)
  | 0, _ => .ok []
  | n + 1, cs =>
    match skipSeparators cs with
    | [] => .ok []
    | start =>
      match readStatement start with
      | .found command rest =>
        (statementsUpTo input n rest).map (⟨lineOf input start, command⟩ :: ·)
      | .absent => .error (lineOf input start, .reading "statement")
      | .broken fault rest => .error (lineOf input rest, fault)

/-- Reads all statements of a script. -/
def statements (s : String) : Except (Nat × LineFault) (List Statement) :=
  statementsUpTo s.toList (s.toList.length + 1) s.toList

end Script
end EbuildGraph
