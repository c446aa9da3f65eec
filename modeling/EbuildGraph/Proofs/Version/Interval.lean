import EbuildGraph.Atom.Basic
import EbuildGraph.Proofs.Version.Pattern

/-!
# Intervals of versions

Each comparison with a version is told by a condition on the key of the version that is compared.
Bounds and single keys are intervals of keys, and so are the keys that begin with the same part
and go on in an interval.  Lists that start with a given list are an interval too, and with them
the versions that begin with a pattern.

Main definitions:

- {lit}`IsInterval`: with two elements all between them belong to a set.

Main results:

- Theorems {lit}`isInterval_eq`, {lit}`isInterval_pair`, {lit}`isInterval_fst` and
  {lit}`isInterval_isPrefix`: intervals of pairs and of lists.
- Theorem {lit}`Version.isInterval_begins`: the versions that begin with a pattern.
- Theorem {lit}`Comparison.isInterval_holds`: the versions that stand in a relation to another.
-/

namespace EbuildGraph

open Std

attribute [local instance] lexOrd

/-! ## Intervals of an order -/

/-- With two elements all that are between them belong to the set. -/
def IsInterval {α : Type} [Ord α] (s : α → Prop) : Prop :=
  ∀ ⦃a b c : α⦄, (compare a b).isLE = true → (compare b c).isLE = true → s a → s c → s b

theorem IsInterval.congr {α : Type} [Ord α] {s t : α → Prop} (hs : IsInterval s)
    (h : ∀ a, t a ↔ s a) : IsInterval t := by
  intro a b c hab hbc ha hc
  exact (h b).2 (hs hab hbc ((h a).1 ha) ((h c).1 hc))

/-- A set that holds with an element all that are not after it. -/
theorem isInterval_of_lower {α : Type} [Ord α] {s : α → Prop}
    (h : ∀ b c, (compare b c).isLE = true → s c → s b) : IsInterval s :=
  fun _ b c _ hbc _ hc => h b c hbc hc

/-- A set that holds with an element all that are not before it. -/
theorem isInterval_of_upper {α : Type} [Ord α] {s : α → Prop}
    (h : ∀ a b, (compare a b).isLE = true → s a → s b) : IsInterval s :=
  fun a b _ hab _ ha _ => h a b hab ha

theorem isInterval_const {α : Type} [Ord α] (p : Prop) : IsInterval fun _ : α => p :=
  fun _ _ _ _ _ hp _ => hp

/-- Pairs whose first parts are from an interval. -/
theorem isInterval_fst {α β : Type} [Ord α] [Ord β] {s : α → Prop} (hs : IsInterval s) :
    IsInterval fun k : α × β => s k.1 := by
  intro a b c hab hbc ha hc
  rw [compare_pair] at hab hbc
  exact hs (Ordering.isLE_then_iff_and.1 hab).1 (Ordering.isLE_then_iff_and.1 hbc).1 ha hc

section Antisymmetric

variable {α : Type} [Ord α] [TransOrd α] [LawfulEqOrd α]

/-- Between an element and itself there is no other one. -/
theorem eq_of_between {x y : α} (hxy : (compare x y).isLE = true)
    (hyx : (compare y x).isLE = true) : x = y :=
  Std.compare_eq_iff_eq.1 (OrientedCmp.isLE_antisymm hxy hyx)

theorem isInterval_eq (x : α) : IsInterval (· = x) := by
  intro a b c hab hbc ha hc
  rw [ha] at hab
  rw [hc] at hbc
  exact (eq_of_between hab hbc).symm

/-- Where equal first parts enclose another one, the second parts decide. -/
theorem of_then_between {x y : α} {o o' : Ordering} (h : ((compare x y).then o).isLE = true)
    (h' : ((compare y x).then o').isLE = true) : x = y ∧ o.isLE = true ∧ o'.isLE = true := by
  obtain ⟨hxy, ho⟩ := Ordering.isLE_then_iff_and.1 h
  obtain ⟨hyx, ho'⟩ := Ordering.isLE_then_iff_and.1 h'
  obtain rfl := eq_of_between hxy hyx
  have hself : compare x x = .eq := ReflCmp.compare_self
  rw [hself] at ho ho'
  exact ⟨rfl, ho.resolve_left nofun, ho'.resolve_left nofun⟩

/-- Pairs with the same first part whose second parts are from an interval. -/
theorem isInterval_pair {β : Type} [Ord β] (x : α) {s : β → Prop} (hs : IsInterval s) :
    IsInterval fun k : α × β => k.1 = x ∧ s k.2 := by
  rintro ⟨x, a⟩ ⟨y, b⟩ ⟨_, c⟩ hab hbc ⟨rfl, ha⟩ ⟨rfl, hc⟩
  rw [compare_pair] at hab hbc
  obtain ⟨rfl, hab, hbc⟩ := of_then_between hab hbc
  exact ⟨rfl, hs hab hbc ha hc⟩

/-- Lists that start alike. -/
theorem isInterval_isPrefix (start : List α) : IsInterval (start <+: ·) := by
  induction start with
  | nil => exact fun _ _ _ _ _ _ _ => List.nil_prefix
  | cons x rest ih =>
    rintro _ b _ hab hbc ⟨a, rfl⟩ ⟨c, rfl⟩
    rcases b with _ | ⟨y, b⟩
    · cases hab
    · rw [List.cons_append, List.compare_cons_cons] at hab hbc
      obtain ⟨rfl, hab, hbc⟩ := of_then_between hab hbc
      exact List.cons_prefix_cons.2
        ⟨rfl, ih hab hbc (List.prefix_append rest a) (List.prefix_append rest c)⟩

end Antisymmetric

/-! ## Intervals of versions -/

namespace Version

/-- What is told by the keys of an interval is an interval of versions. -/
theorem isInterval_key {s : _ → Prop} (hs : IsInterval s) :
    IsInterval fun v : Version => s v.key := by
  intro a b c hab hbc
  apply hs
  · exact compare_eq_compare_key a b ▸ hab
  · exact compare_eq_compare_key b c ▸ hbc

/-- The missing suffix, which closes the suffixes of a version, is none that a pattern has. -/
theorem suffixKeys_prefix_iff {p v : Version} :
    p.suffixKeys <+: suffixesKey v.suffixes ↔ p.suffixKeys <+: v.suffixKeys := by
  have habsent : absentKey ∉ p.suffixKeys := by
    intro hmem
    obtain ⟨s, _, hs⟩ := List.mem_map.1 hmem
    exact SuffixKind.rank_ne_absentRank s.label (congrArg Prod.fst hs)
  have hne : p.suffixKeys ≠ v.suffixKeys ++ [absentKey] := by
    intro heq
    exact habsent (heq ▸ List.mem_append_right _ List.mem_cons_self)
  exact List.prefix_concat_iff.trans (or_iff_right hne)

/-- The versions that begin with a pattern. -/
theorem isInterval_begins (p : Version) : IsInterval p.Begins := by
  cases hp : p.isNumeric with
  | true =>
    refine (isInterval_key (isInterval_pair (valueKey p.major.digits)
      (isInterval_fst (isInterval_isPrefix p.minorKeys)))).congr fun v => ?_
    rw [begins_iff_of_numeric hp, eq_comm]
    rfl
  | false =>
    refine (isInterval_key (isInterval_pair (valueKey p.major.digits)
      (isInterval_pair p.minorKeys (isInterval_pair (letterKey p.letter)
        (isInterval_fst (isInterval_isPrefix p.suffixKeys)))))).congr fun v => ?_
    rw [begins_iff_of_detailed hp, ← suffixKeys_prefix_iff, eq_comm, eq_comm (a := p.minorKeys),
      eq_comm (a := letterKey p.letter)]
    rfl

theorem isInterval_fitsPattern (p : Version) :
    IsInterval fun v : Version => v.fitsPattern p = true := by
  cases hp : p.revision.isNone with
  | true => exact (isInterval_begins p).congr fun v => fitsPattern_iff_begins hp
  | false => exact (isInterval_key (isInterval_eq p.key)).congr fun v => fitsPattern_iff_key_eq hp

/-- The versions that are equal to another one once they have lost their revisions. -/
theorem isInterval_withoutRevision (w : Version) :
    IsInterval fun v : Version => v.withoutRevision.same w = true := by
  refine (isInterval_key (isInterval_pair (valueKey w.major.digits) (isInterval_pair w.minorKeys
    (isInterval_pair (letterKey w.letter) (isInterval_pair (suffixesKey w.suffixes)
      (isInterval_const (valueKey [] = valueKey (optionalDigits w.revision)))))))).congr fun v => ?_
  rw [same_iff_key_eq]
  simp only [key, Prod.mk.injEq]
  rfl

end Version

namespace Comparison

open Version

/-- The versions that stand in a relation to another one are an interval. -/
theorem isInterval_holds (comparison : Comparison) (wanted : Version) :
    IsInterval fun found => comparison.holds found wanted = true := by
  cases comparison with
  | less =>
    refine isInterval_of_lower fun b c hbc hc => ?_
    simp only [holds, beq_iff_eq] at hc ⊢
    exact TransCmp.lt_of_isLE_of_lt hbc hc
  | lessEqual =>
    refine isInterval_of_lower fun b c hbc hc => ?_
    simp only [holds, bne_iff_ne, ne_eq, ← Ordering.isLE_iff_ne_gt] at hc ⊢
    exact TransCmp.isLE_trans hbc hc
  | equal => exact (isInterval_key (isInterval_eq wanted.key)).congr fun v => same_iff_key_eq
  | pattern => exact isInterval_fitsPattern wanted
  | approximate => exact isInterval_withoutRevision wanted
  | greaterEqual =>
    refine isInterval_of_upper fun a b hab ha => ?_
    simp only [holds, bne_iff_ne, ne_eq, ← Ordering.isGE_iff_ne_lt] at ha ⊢
    exact TransCmp.isGE_trans (OrientedCmp.isGE_iff_isLE.2 hab) ha
  | greater =>
    refine isInterval_of_upper fun a b hab ha => ?_
    simp only [holds, beq_iff_eq] at ha ⊢
    exact TransCmp.gt_of_isGE_of_gt (OrientedCmp.isGE_iff_isLE.2 hab) ha

end Comparison

end EbuildGraph
