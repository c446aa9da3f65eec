import EbuildGraph.Dependency.Parser
import EbuildGraph.Proofs.Atom.Name
import EbuildGraph.Proofs.Dependency.Leaves

/-!
# Atoms of expressions that were read

Each rule of the grammar makes an expression from what the rules below it found, so a
property of every atom that can be read holds of every leaf of the result.

Main result:

- Theorem {lit}`Spec.isQualified_of_parse`: every leaf of a value that was read names a
  package as packages are named.
-/

namespace EbuildGraph

/-! ## What rules find -/

namespace Outcome

variable {ε α β : Type}

/-- Whether a property holds of the value that a rule found, if it found one. -/
def Satisfies (p : α → Prop) (o : Outcome ε α) : Prop :=
  ∀ value rest, o = found value rest → p value

theorem satisfies_absent {p : α → Prop} : Satisfies p (absent : Outcome ε α) :=
  nofun

theorem satisfies_broken {p : α → Prop} {fault : ε} {rest : List Char} :
    Satisfies p (broken fault rest : Outcome ε α) :=
  nofun

theorem satisfies_found_iff {p : α → Prop} {value : α} {rest : List Char} :
    Satisfies p (found value rest : Outcome ε α) ↔ p value := by
  constructor
  · intro h
    exact h value rest rfl
  · rintro h _ _ heq
    cases heq
    exact h

/-- What holds of the value that was found goes over to what is made of it. -/
theorem Satisfies.map {p : α → Prop} {q : β → Prop} {f : α → β} {o : Outcome ε α}
    (h : o.Satisfies p) (hf : ∀ value, p value → q (f value)) : (o.map f).Satisfies q := by
  cases o with
  | found value rest => exact satisfies_found_iff.2 (hf value (satisfies_found_iff.1 h))
  | absent => exact satisfies_absent
  | broken fault rest => exact satisfies_broken

/-- What a further rule finds behind any value with a property satisfies what this rule does. -/
theorem Satisfies.andThen {p : α → Prop} {q : β → Prop} {next : α → List Char → Outcome ε β}
    {o : Outcome ε α} (h : o.Satisfies p)
    (hnext : ∀ value rest, p value → (next value rest).Satisfies q) :
    (o.andThen next).Satisfies q := by
  cases o with
  | found value rest => exact hnext value rest (satisfies_found_iff.1 h)
  | absent => exact satisfies_absent
  | broken fault rest => exact satisfies_broken

/-- Whichever of two rules finds a value, it satisfies what both do. -/
theorem Satisfies.orElse {p : α → Prop} {o other : Outcome ε α} (h : o.Satisfies p)
    (hother : other.Satisfies p) : (o.orElse other).Satisfies p := by
  cases o with
  | found value rest => exact h
  | absent => exact hother
  | broken fault rest => exact h

/-- That something has to be found says nothing of what is found. -/
theorem Satisfies.required {p : α → Prop} {fault : ε} {input : List Char} {o : Outcome ε α}
    (h : o.Satisfies p) : (o.required fault input).Satisfies p := by
  cases o with
  | found value rest => exact h
  | absent => exact satisfies_broken
  | broken fault rest => exact h

end Outcome

/-! ## Rules for dependencies -/

namespace Dependency

/-- Every leaf of the expressions names a package as packages are named. -/
def NamesPackages (es : List Expr) : Prop :=
  ∀ leaf ∈ Expr.leavesOfAll es, leaf.1.IsQualified

/-- Several expressions name packages when the first does and the others do. -/
theorem namesPackages_cons_iff {e : Expr} {rest : List Expr} :
    NamesPackages (e :: rest) ↔ NamesPackages [e] ∧ NamesPackages rest := by
  simp only [NamesPackages, Expr.leavesOfAll_cons, Expr.leavesOfAll_nil, List.append_nil,
    List.mem_append]
  constructor
  · intro h
    exact ⟨fun leaf hleaf => h leaf (Or.inl hleaf), fun leaf hleaf => h leaf (Or.inr hleaf)⟩
  · rintro ⟨hhead, hrest⟩ leaf (hleaf | hleaf)
    · exact hhead leaf hleaf
    · exact hrest leaf hleaf

/-- A group names packages when its members do. -/
theorem namesPackages_group {es : List Expr} (h : NamesPackages es) {group : Expr}
    (hgroup : group.leaves = Expr.leavesOfAll es) : NamesPackages [group] := by
  intro leaf hleaf
  rw [Expr.leavesOfAll_cons, Expr.leavesOfAll_nil, List.append_nil, hgroup] at hleaf
  exact h leaf hleaf

/-- The leaf that a token is names a package. -/
theorem namesPackages_packageOfToken {token : List Char} {e : Expr}
    (h : packageOfToken token = .ok e) : NamesPackages [e] := by
  unfold packageOfToken at h
  dsimp only at h
  split at h
  · cases h
  next blocking _ =>
  obtain ⟨atom, hatom, rfl⟩ := map_eq_ok_iff.1 h
  intro leaf hleaf
  obtain rfl : leaf = (atom, blocking) := by
    simpa [Expr.leaves] using hleaf
  exact Atom.isQualified_of_parse hatom

/-- A leaf that was read names a package. -/
theorem satisfies_readPackage (cs : List Char) :
    (readPackage cs).Satisfies fun e => NamesPackages [e] := by
  unfold readPackage
  split
  · exact Outcome.satisfies_broken
  split
  · next htoken => exact Outcome.satisfies_found_iff.2 (namesPackages_packageOfToken htoken)
  · exact Outcome.satisfies_broken

section Groups

variable {members : List Char → Reading (List Expr)}

/-- A group in parentheses names packages if whatever is read as its members does. -/
theorem satisfies_readGroup (hmembers : ∀ cs, (members cs).Satisfies NamesPackages)
    (cs : List Char) : (readGroup members cs).Satisfies NamesPackages := by
  unfold readGroup
  split
  · next cs =>
    refine (hmembers cs).andThen fun children rest hchildren => ?_
    split
    · exact Outcome.satisfies_found_iff.2 hchildren
    · exact Outcome.satisfies_broken
  · exact Outcome.satisfies_absent

/-- A group behind an operator names packages if whatever is read as its members does. -/
theorem satisfies_readOperatorGroup (hmembers : ∀ cs, (members cs).Satisfies NamesPackages)
    (operator : String) (cs : List Char) :
    (readOperatorGroup members operator cs).Satisfies NamesPackages := by
  unfold readOperatorGroup
  split
  · exact Outcome.satisfies_absent
  · exact (satisfies_readGroup hmembers _).required

/-- A conditional group names packages if whatever is read as its members does. -/
theorem satisfies_readConditional (hmembers : ∀ cs, (members cs).Satisfies NamesPackages)
    (cs : List Char) : (readConditional members cs).Satisfies fun e => NamesPackages [e] := by
  unfold readConditional
  split
  · exact Outcome.satisfies_absent
  · exact (satisfies_readGroup hmembers _).required.map fun es hes => namesPackages_group hes rfl

/-- An expression of any kind names packages if whatever is read as members does. -/
theorem satisfies_readEntry (hmembers : ∀ cs, (members cs).Satisfies NamesPackages)
    (cs : List Char) : (readEntry members cs).Satisfies fun e => NamesPackages [e] := by
  have hgroup := satisfies_readGroup hmembers
  have hoperator := satisfies_readOperatorGroup hmembers
  unfold readEntry
  split
  · exact Outcome.satisfies_absent
  · exact (hgroup _).map fun es hes => namesPackages_group hes rfl
  · exact Outcome.satisfies_absent
  · exact (hoperator _ _).map fun es hes => namesPackages_group hes rfl
  · exact (hoperator _ _).map fun es hes => namesPackages_group hes rfl
  · exact (hoperator _ _).map fun es hes => namesPackages_group hes rfl
  · exact (satisfies_readConditional hmembers _).orElse (satisfies_readPackage _)

end Groups

/-- All that is read, nested up to any depth, names packages. -/
theorem satisfies_readEntriesUpTo (n : Nat) (cs : List Char) :
    (readEntriesUpTo n cs).Satisfies NamesPackages := by
  induction n generalizing cs with
  | zero => exact Outcome.satisfies_found_iff.2 nofun
  | succ n ih =>
    have hentry := satisfies_readEntry ih (skipLayout cs)
    rw [readEntriesUpTo]
    split
    · next e rest hfound =>
      refine (ih rest).map fun es hes => ?_
      exact namesPackages_cons_iff.2 ⟨hentry e rest hfound, hes⟩
    · exact Outcome.satisfies_found_iff.2 nofun
    · exact Outcome.satisfies_broken

/-- Every leaf of a value that was read names a package as packages are named. -/
theorem Spec.isQualified_of_parse {s : String} {d : Spec} (h : Spec.parse s = .ok d) :
    ∀ leaf ∈ d.leaves, leaf.1.IsQualified := by
  have hentries : (readEntries s.toList).Satisfies NamesPackages :=
    satisfies_readEntriesUpTo _ _
  unfold Spec.parse at h
  split at h
  · next children hcomplete =>
    cases h
    rcases hfound : readEntries s.toList with ⟨value, rest⟩ | _ | ⟨stop, rest⟩
    · simp only [hfound, Outcome.complete] at hcomplete
      split at hcomplete
      · cases hcomplete
        exact hentries _ _ hfound
      · cases hcomplete
    · simp [hfound, Outcome.complete] at hcomplete
    · simp [hfound, Outcome.complete] at hcomplete
  · cases h

end Dependency
end EbuildGraph
