import EbuildGraph.Error
import EbuildGraph.Text.Blank

/-!
# Outcomes of grammar rules

A rule of a grammar reads the front of a list of characters.  It finds a value, it
does not apply, or the input is broken: then nothing else is tried, and the
outcome says what was being read and where it stopped.

Main definitions:

- {lit}`Outcome`: what a rule reports.
- {lit}`Outcome.required`: a rule without alternative.
- {lit}`positionOf`: line and column of the place where a rule stopped.
-/

namespace EbuildGraph

/-- What a rule of a grammar reports. -/
inductive Outcome (ε α : Type) where
  | found (value : α) (rest : List Char)
  | absent
  | broken (fault : ε) (rest : List Char)

namespace Outcome

variable {ε α β : Type}

/-- Changes the value that was found. -/
def map (f : α → β) : Outcome ε α → Outcome ε β
  | found value rest => found (f value) rest
  | absent => absent
  | broken fault rest => broken fault rest

/-- Goes on behind the value that was found. -/
def andThen (o : Outcome ε α) (next : α → List Char → Outcome ε β) : Outcome ε β :=
  match o with
  | found value rest => next value rest
  | absent => absent
  | broken fault rest => broken fault rest

/-- Tries another rule when the first does not apply. -/
def orElse (o other : Outcome ε α) : Outcome ε α :=
  match o with
  | absent => other
  | o => o

/-- Makes a rule that does not apply to the input break it. -/
def required (fault : ε) (input : List Char) (o : Outcome ε α) : Outcome ε α :=
  match o with
  | absent => broken fault input
  | o => o

/-- Changes the fault of a broken input. -/
def mapFault (f : ε → ε) : Outcome ε α → Outcome ε α
  | broken fault rest => broken (f fault) rest
  | o => o

end Outcome

/-- The input behind layout characters. -/
def skipLayout (cs : List Char) : List Char :=
  cs.dropWhile Text.isLayout

/-- The number of bytes of the UTF-8 form of characters. -/
def utf8Length (cs : List Char) : Nat :=
  cs.foldr (fun c n => c.utf8Size + n) 0

/-- The characters after the last line feed. -/
def lastLine (cs : List Char) : List Char :=
  (cs.reverse.takeWhile (· != '\n')).reverse

/-- The place in the input before the given rest.  In a text of one line the column
counts bytes.  Otherwise it counts characters, or bytes before a character of more
than one byte, and the end of the input lies on the line of its last character. -/
def positionOf (input rest : List Char) : Position :=
  let consumed := input.take (input.length - rest.length)
  if !input.contains '\n' then ⟨1, utf8Length consumed + 1⟩
  else
    match rest with
    | c :: _ =>
      let line := lastLine consumed
      ⟨consumed.count '\n' + 1, (if c.utf8Size = 1 then line.length else utf8Length line) + 1⟩
    | [] =>
      let before := consumed.dropLast
      ⟨before.count '\n' + 1, (lastLine before).length + 2⟩

/-- What was being read when a grammar of expressions stopped. -/
structure ExpressionStop where
  reading : Option String
  atom : Option AtomFault
deriving DecidableEq

namespace ExpressionStop

/-- The fault of an input that stopped before the given rest. -/
def toFault (stop : ExpressionStop) (input rest : List Char) : GrammarFault :=
  ⟨stop.reading, stop.atom, positionOf input rest⟩

end ExpressionStop

/-- The value of a rule that has to read the whole input up to layout. -/
def Outcome.complete {α : Type} (input : List Char) :
    Outcome ExpressionStop α → Except GrammarFault α
  | .found value rest =>
    match skipLayout rest with
    | [] => .ok value
    | rest => .error (ExpressionStop.toFault ⟨none, none⟩ input rest)
  | .absent => .error (ExpressionStop.toFault ⟨none, none⟩ input input)
  | .broken stop rest => .error (stop.toFault input rest)

end EbuildGraph
