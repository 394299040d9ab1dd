/-
Patches: new values for some of the columns of a row.

* `Patch` — a value for a column, or none; `above`, `onto` lay a patch over another one and
  onto a row, and do it associatively (`onto_above`);
* `lastOf` — the last value that a list of patches has for a column;
* `foldl_onto` — the last value is what a list of patches leaves;
* `lastOf_eq_of_agree`, `lastOf_eq_of_getLast` — where the order of the patches does not
  matter, and where only the last one does.
-/
import Mathlib.Data.List.Basic

variable {κ : Type*} {β : κ → Type*}

/-- New values for some columns. -/
def Patch (β : κ → Type*) : Type _ := (c : κ) → Option (β c)

namespace Patch

def empty : Patch β := fun _ => none

/-- `q`, and then `p`. -/
def above (p q : Patch β) : Patch β := fun c => (p c).or (q c)

def onto (p : Patch β) (r : (c : κ) → β c) : (c : κ) → β c := fun c => (p c).getD (r c)

variable {p q : Patch β} {r : (c : κ) → β c} {c : κ} {ps qs : List (Patch β)}

@[simp] theorem onto_empty : (empty : Patch β).onto r = r := rfl

/-- **One patch after the other, or both in one.** -/
theorem onto_above : (p.above q).onto r = p.onto (q.onto r) := by
  funext c
  unfold onto above
  cases p c <;> rfl

theorem foldl_onto_above : (ps.foldl (fun q p => above p q) q).onto r =
    ps.foldl (fun r p => p.onto r) (q.onto r) := by
  induction ps generalizing q with
  | nil => rfl
  | cons p ps ih => rw [List.foldl_cons, ih, onto_above, List.foldl_cons]

/-- The last value for a column. -/
def lastOf (ps : List (Patch β)) (c : κ) : Option (β c) := (ps.filterMap fun p => p c).getLast?

/-- **The last value for a column is what remains.** -/
theorem foldl_onto : ps.foldl (fun r p => p.onto r) r c = (lastOf ps c).getD (r c) := by
  induction ps generalizing r with
  | nil => rfl
  | cons p ps ih =>
    rw [List.foldl_cons, ih]
    unfold lastOf onto
    rw [List.filterMap_cons]
    cases p c with
    | none => rfl
    | some v =>
      rw [List.getLast?_cons]
      cases (ps.filterMap fun p => p c).getLast? <;> rfl

/-- All values for a column are equal. -/
def Agree (ps : List (Patch β)) (c : κ) : Prop :=
  ∀ p ∈ ps, ∀ q ∈ ps, ∀ v w, p c = some v → q c = some w → v = w

theorem lastOf_mem {v : β c} (h : lastOf ps c = some v) : ∃ p ∈ ps, p c = some v :=
  List.mem_filterMap.mp (List.mem_of_getLast? h)

theorem lastOf_eq_none : lastOf ps c = none ↔ ∀ p ∈ ps, p c = none := by
  unfold lastOf
  rw [List.getLast?_eq_none_iff, List.filterMap_eq_nil_iff]

/-- **The same patches in any order, any number of times**, leave what they agree on. -/
theorem lastOf_eq_of_agree (h : ∀ p, p ∈ ps ↔ p ∈ qs) (hagree : Agree ps c) :
    lastOf ps c = lastOf qs c := by
  cases hq : lastOf qs c with
  | none =>
    rw [lastOf_eq_none] at hq ⊢
    exact fun p hp => hq p ((h p).mp hp)
  | some w =>
    obtain ⟨q, hmem, hw⟩ := lastOf_mem hq
    cases hp : lastOf ps c with
    | none =>
      rw [lastOf_eq_none.mp hp q ((h q).mpr hmem)] at hw
      cases hw
    | some v =>
      obtain ⟨p, hmem', hv⟩ := lastOf_mem hp
      rw [hagree p hmem' q ((h q).mpr hmem) v w hv hw]

/-- A last patch with a value for the column. -/
theorem lastOf_of_getLast {v : β c} (h : ps.getLast? = some p) (hp : p c = some v) :
    lastOf ps c = some v := by
  obtain ⟨init, rfl⟩ := List.getLast?_eq_some_iff.mp h
  unfold lastOf
  rw [List.filterMap_append, List.filterMap_cons_some hp, List.filterMap_nil,
    List.getLast?_concat]

/-- **The same last patch**, with values for all columns that any of them has. -/
theorem lastOf_eq_of_getLast (h : ∀ p, p ∈ ps ↔ p ∈ qs) (hlast : ps.getLast? = qs.getLast?)
    (hall : ∀ p, ps.getLast? = some p → p c = none → ∀ q ∈ ps, q c = none) :
    lastOf ps c = lastOf qs c := by
  cases hp : ps.getLast? with
  | none =>
    have hq : qs.getLast? = none := hlast ▸ hp
    rw [List.getLast?_eq_none_iff.mp hp, List.getLast?_eq_none_iff.mp hq]
  | some p =>
    cases hv : p c with
    | none =>
      have hnone := hall p hp hv
      rw [lastOf_eq_none.mpr hnone, lastOf_eq_none.mpr fun q hq => hnone q ((h q).mpr hq)]
    | some v =>
      rw [lastOf_of_getLast hp hv, lastOf_of_getLast (hlast ▸ hp) hv]

end Patch
