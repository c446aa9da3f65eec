import EbuildGraph.Error
import EbuildGraph.Text.Blank

/-!
# EAPI levels

Main definitions:

- {lit}`Eapi.parse`, {lit}`Eapi.ofVariable`: the level that a text or an ebuild declares.
- {lit}`Eapi.buildVariables`: the variables that list build dependencies at a level.
-/

namespace EbuildGraph

/-- A supported EAPI level, from 0 to 9. -/
structure Eapi where
  level : Fin 10
deriving DecidableEq

namespace Eapi

/-- The level of an ebuild that declares none. -/
def zero : Eapi := ⟨0⟩

/-- A level as it is written. -/
def text (e : Eapi) : String :=
  toString e.level.val

/-- Whether build dependencies of the building machine have a variable of their own. -/
def hasBuildHostDependencies (e : Eapi) : Bool :=
  7 ≤ e.level.val

/-- The variables that list build dependencies, in the order they are read. -/
def buildVariables (e : Eapi) : List String :=
  if e.hasBuildHostDependencies then ["DEPEND", "BDEPEND"] else ["DEPEND"]

/-- The level that a text spells: a single digit. -/
def parse (s : String) : Except Error Eapi :=
  match s.toList with
  | [c] =>
    if h : c.isDigit = true ∧ c.toNat - 0x30 < 10 then .ok ⟨⟨c.toNat - 0x30, h.2⟩⟩
    else .error (.eapi s)
  | _ => .error (.eapi s)

/-- The level of an ebuild with the given declaration; a blank one counts as none. -/
def ofVariable (declared : Option String) : Except Error Eapi :=
  match declared.map Text.trim with
  | none => .ok zero
  | some s => if s = "" then .ok zero else parse s

end Eapi
end EbuildGraph
