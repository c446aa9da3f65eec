import EbuildGraph.Proofs.Grammar
import EbuildGraph.Proofs.Success
import EbuildGraph.Script.Parser

/-!
# Names in scripts

A script assigns to variables whose names were split off its text, so no name holds a
character that no name may hold.

Main definitions:

- {lit}`IsVariableName`: whether a text is the name of a variable.
- {lit}`Command.AssignsNames`: whether a command assigns to such names only.

Main result:

- Theorem {lit}`assignsNames_of_statements`: commands that were read assign to names of
  variables.
-/

namespace EbuildGraph
namespace Script

/-- Whether a text is the name of a variable. -/
def IsVariableName (name : String) : Prop :=
  ∃ c rest, name.toList = c :: rest ∧ isNameStart c = true ∧ ∀ d ∈ rest, isNameChar d = true

/-- Whether a command assigns to names of variables only. -/
def Command.AssignsNames : Command → Prop
  | assign assignments => ∀ a ∈ assignments, IsVariableName a.1
  | _ => True

theorem isNameChar_of_isNameStart {c : Char} (h : isNameStart c = true) :
    isNameChar c = true := by
  simp only [isNameStart, Bool.or_eq_true] at h
  rcases h with h | h <;> simp [isNameChar, Char.isAlphanum, h]

/-- The characters of a name are characters that names may hold. -/
theorem IsVariableName.isNameChar {name : String} (h : IsVariableName name) :
    ∀ c ∈ name.toList, isNameChar c = true := by
  obtain ⟨c, rest, hname, hc, hrest⟩ := h
  rw [hname]
  exact List.forall_mem_cons.2 ⟨isNameChar_of_isNameStart hc, hrest⟩

theorem IsVariableName.not_mem {name : String} (h : IsVariableName name) {c : Char}
    (hc : Script.isNameChar c = false) : c ∉ name.toList := by
  intro hmem
  rw [h.isNameChar c hmem] at hc
  cases hc

/-! ## What rules read -/

/-- What is split off in front of the equals sign is a name of a variable. -/
theorem isVariableName_of_splitName {cs rest : List Char} {name : String}
    (h : splitName? cs = some (name, rest)) : IsVariableName name := by
  cases cs with
  | nil => cases h
  | cons c others =>
    rw [splitName?] at h
    split at h
    · next hc =>
      cases h
      exact ⟨c, others.takeWhile Script.isNameChar, String.toList_ofList, hc,
        List.all_eq_true.1 List.all_takeWhile⟩
    · cases h

/-- An assignment that is read assigns to a name of a variable. -/
theorem isVariableName_of_readAssignment {cs rest : List Char} {assignment : String × Value}
    (h : readAssignment cs = .found assignment rest) : IsVariableName assignment.1 := by
  unfold readAssignment at h
  split at h
  · next hname =>
    obtain ⟨value, _, rfl⟩ := Outcome.map_eq_found_iff.1 h
    exact isVariableName_of_splitName hname
  · cases h

theorem isVariableName_of_readAssignmentsUpTo {n : Nat} {cs rest : List Char}
    {assignments : List (String × Value)}
    (h : readAssignmentsUpTo n cs = .found assignments rest) :
    ∀ a ∈ assignments, IsVariableName a.1 := by
  induction n generalizing cs assignments with
  | zero =>
    cases h
    exact nofun
  | succ n ih =>
    rw [readAssignmentsUpTo] at h
    split at h
    · next hfirst =>
      obtain ⟨others, hothers, rfl⟩ := Outcome.map_eq_found_iff.1 h
      exact List.forall_mem_cons.2 ⟨isVariableName_of_readAssignment hfirst, ih hothers⟩
    · cases h
      exact nofun
    · cases h

theorem assignsNames_of_readAssignments {cs rest : List Char} {command : Command}
    (h : readAssignments cs = .found command rest) : command.AssignsNames := by
  unfold readAssignments at h
  split at h
  · cases h
  · obtain ⟨assignments, hassignments, rfl⟩ := Outcome.map_eq_found_iff.1 h
    exact isVariableName_of_readAssignmentsUpTo hassignments

theorem assignsNames_of_readSource {cs rest : List Char} {command : Command}
    (h : readSource cs = .found command rest) : command.AssignsNames := by
  unfold readSource at h
  split at h
  · cases h
  · obtain ⟨word, _, rfl⟩ := Outcome.map_eq_found_iff.1 (Outcome.mapFault_eq_found_iff.1 h)
    trivial

theorem assignsNames_of_readInherit {cs rest : List Char} {command : Command}
    (h : readInherit cs = .found command rest) : command.AssignsNames := by
  unfold readInherit at h
  split at h
  · cases h
  · obtain ⟨words, _, rfl⟩ := Outcome.map_eq_found_iff.1 h
    trivial

/-- Every command that is read assigns to names of variables. -/
theorem assignsNames_of_readCommand {cs rest : List Char} {command : Command}
    (h : readCommand cs = .found command rest) : command.AssignsNames := by
  have hread := Outcome.required_eq_found_iff.1 h
  rcases Outcome.orElse_eq_found_iff.1 hread with hread | ⟨_, hread⟩
  · rcases Outcome.orElse_eq_found_iff.1 hread with hread | ⟨_, hread⟩
    · exact assignsNames_of_readSource hread
    · exact assignsNames_of_readInherit hread
  · exact assignsNames_of_readAssignments hread

/-- Every statement that is read assigns to names of variables. -/
theorem assignsNames_of_readStatement {cs rest : List Char} {command : Command}
    (h : readStatement cs = .found command rest) : command.AssignsNames := by
  obtain ⟨read, mid, hread, hend⟩ := Outcome.andThen_eq_found_iff.1 h
  have hsame : read = command := by
    split at hend
    · cases hend
      rfl
    · split at hend
      · cases hend
        rfl
      · cases hend
  exact hsame ▸ assignsNames_of_readCommand hread

/-- Commands that were read assign to names of variables. -/
theorem assignsNames_of_statements {s : String} {parsed : List Statement}
    (h : statements s = .ok parsed) : ∀ st ∈ parsed, st.command.AssignsNames := by
  have hupTo : ∀ (n : Nat) (cs : List Char) (parsed : List Statement),
      statementsUpTo s.toList n cs = .ok parsed → ∀ st ∈ parsed, st.command.AssignsNames := by
    intro n
    induction n with
    | zero =>
      rintro cs parsed ⟨⟩
      exact nofun
    | succ n ih =>
      intro cs parsed h
      rw [statementsUpTo] at h
      split at h
      · cases h
        exact nofun
      split at h
      · next hfirst =>
        obtain ⟨others, hothers, rfl⟩ := map_eq_ok_iff.1 h
        exact List.forall_mem_cons.2
          ⟨assignsNames_of_readStatement hfirst, ih _ others hothers⟩
      · cases h
      · cases h
  exact hupTo _ _ parsed h

end Script
end EbuildGraph
