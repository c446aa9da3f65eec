import EbuildGraph.Text.Split

/-!
# Source addresses

The value of {lit}`SRC_URI` is a tree of addresses, groups and groups that depend on
a USE flag.  An address may be followed by the name to store its file under.

Main definitions:

- {lit}`Entry`: a node of the tree.
- {lit}`Entry.text`: how it is written.
-/

namespace EbuildGraph
namespace SourceUri

/-- A node of a source expression. -/
inductive Entry where
  | uri (url : String) (rename : Option String)
  | useConditional (flag : String) (negated : Bool) (entries : List Entry)
  | group (entries : List Entry)

namespace Entry

instance : Inhabited Entry := ⟨group []⟩

mutual

/-- Whether two entries are equal. -/
def equal : Entry → Entry → Bool
  | uri u r, uri v s => u == v && r == s
  | useConditional f n as, useConditional g m bs => f == g && n == m && equalAll as bs
  | group as, group bs => equalAll as bs
  | _, _ => false

/-- Whether two lists of entries are equal. -/
def equalAll : List Entry → List Entry → Bool
  | [], [] => true
  | a :: as, b :: bs => equal a b && equalAll as bs
  | _, _ => false

end

mutual

/-- The test that decides equality of entries is exact. -/
theorem equal_iff (a b : Entry) : equal a b = true ↔ a = b := by
  cases a with
  | uri u r => cases b <;> simp [equal]
  | useConditional f n as => cases b <;> simp [equal, equalAll_iff as, and_assoc]
  | group as => cases b <;> simp [equal, equalAll_iff as]

/-- The test that decides equality of lists of entries is exact. -/
theorem equalAll_iff (as bs : List Entry) : equalAll as bs = true ↔ as = bs := by
  cases as with
  | nil => cases bs <;> simp [equalAll]
  | cons a as =>
    cases bs with
    | nil => simp [equalAll]
    | cons b bs => simp [equalAll, equal_iff a b, equalAll_iff as bs]

end

instance : DecidableEq Entry := fun a b => decidable_of_iff (equal a b = true) (equal_iff a b)

/-- A group as it is written. -/
def groupText (members : List String) : String :=
  "(" ++ String.join (members.map fun member => " " ++ member) ++ " )"

mutual

/-- An entry as it is written. -/
def text : Entry → String
  | uri url none => url
  | uri url (some name) => url ++ " -> " ++ name
  | useConditional flag negated entries =>
    (if negated then "!" else "") ++ flag ++ "? " ++ groupText (texts entries)
  | group entries => groupText (texts entries)

/-- Entries as they are written. -/
def texts : List Entry → List String
  | [] => []
  | e :: rest => e.text :: texts rest

end

end Entry

/-- Entries joined as in a value. -/
def text (entries : List Entry) : String :=
  Text.unwords (Entry.texts entries)

end SourceUri
end EbuildGraph
