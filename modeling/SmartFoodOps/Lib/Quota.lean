/-
A quota for each key: of a list of keys, the first few of each get through.

* `passing` — those that get through;
* `count_passing` — of each key, as many as the quota allows;
* `filter_passing` — keys with a property get through as if they were alone;
* `length_passing_le_iff` — one quota is enough for all of them together exactly if they are
  that few, or all the same, or the quota is zero.
-/
import Mathlib.Data.List.Count
import Mathlib.Data.List.Perm.Basic

namespace Quota

variable {κ : Type*} [DecidableEq κ] {limit : ℕ} {seen keys : List κ}

/-- The keys of which fewer than `limit` came before, also among the `seen`. -/
def passing (limit : ℕ) : List κ → List κ → List κ
  | _, [] => []
  | seen, k :: keys =>
    if seen.count k < limit then k :: passing limit (k :: seen) keys
    else passing limit (k :: seen) keys

theorem passing_sublist : (passing limit seen keys).Sublist keys := by
  induction keys generalizing seen with
  | nil => exact List.Sublist.refl _
  | cons k keys ih =>
    rw [passing]
    split
    · exact ih.cons_cons k
    · exact ih.cons k

theorem count_passing (k : κ) :
    (passing limit seen keys).count k = min (keys.count k) (limit - seen.count k) := by
  induction keys generalizing seen with
  | nil => simp [passing]
  | cons x keys ih =>
    rw [passing]
    by_cases hk : x = k
    · rw [hk]
      split
      · rw [List.count_cons_self, List.count_cons_self, ih, List.count_cons_self]
        omega
      · rw [List.count_cons_self, ih, List.count_cons_self]
        omega
    · split
      · rw [List.count_cons_of_ne hk, List.count_cons_of_ne hk, ih, List.count_cons_of_ne hk]
      · rw [List.count_cons_of_ne hk, ih, List.count_cons_of_ne hk]

theorem filter_passing (p : κ → Bool) : (passing limit seen keys).filter p =
    passing limit (seen.filter p) (keys.filter p) := by
  induction keys generalizing seen with
  | nil => rfl
  | cons k keys ih =>
    rw [passing]
    by_cases hk : p k = true
    · have hcount : (seen.filter p).count k = seen.count k := List.count_filter hk
      rw [List.filter_cons_of_pos hk, passing, hcount]
      have hrest := @ih (k :: seen)
      rw [List.filter_cons_of_pos hk] at hrest
      split
      · rw [List.filter_cons_of_pos hk, hrest]
      · exact hrest
    · have hrest := @ih (k :: seen)
      rw [List.filter_cons_of_neg hk] at hrest
      rw [List.filter_cons_of_neg hk]
      split
      · rw [List.filter_cons_of_neg hk, hrest]
      · exact hrest

/-- Nobody is held up whose key comes no more often than the quota. -/
theorem length_passing_of_count_le (h : ∀ k, keys.count k ≤ limit) :
    (passing limit [] keys).length = keys.length := by
  have hperm : (passing limit [] keys).Perm keys := by
    rw [List.perm_iff_count]
    intro k
    have hk := h k
    rw [count_passing, List.count_nil]
    omega
  exact hperm.length_eq

theorem count_add_count_le_length {k k' : κ} (hne : k ≠ k') (l : List κ) :
    l.count k + l.count k' ≤ l.length := by
  induction l with
  | nil => simp
  | cons x l ih =>
    rw [List.count_cons, List.count_cons, List.length_cons]
    have honce : ¬ (x = k ∧ x = k') := by
      rintro ⟨rfl, rfl⟩
      exact hne rfl
    by_cases hx : x = k <;> by_cases hx' : x = k' <;> simp_all <;> omega

theorem length_passing_le_iff : (passing limit [] keys).length ≤ limit ↔
    keys.length ≤ limit ∨ (∀ k ∈ keys, ∀ k' ∈ keys, k = k') ∨ limit = 0 := by
  constructor
  · intro h
    by_contra hnot
    simp only [not_or, not_forall] at hnot
    obtain ⟨hmany, ⟨k, hk, k', hk', hne⟩, hpos⟩ := hnot
    by_cases hcount : ∀ k, keys.count k ≤ limit
    · rw [length_passing_of_count_le hcount] at h
      exact hmany h
    · -- one key fills the quota, and there is another one
      obtain ⟨x, hx⟩ := not_forall.mp hcount
      obtain ⟨y, hy, hxy⟩ : ∃ y ∈ keys, x ≠ y := by
        by_cases hxk : x = k
        · exact ⟨k', hk', hxk ▸ hne⟩
        · exact ⟨k, hk, hxk⟩
      have hylt := List.count_pos_iff.mpr hy
      have hsum := count_add_count_le_length hxy (passing limit [] keys)
      rw [count_passing, count_passing, List.count_nil, List.count_nil] at hsum
      omega
  · rintro (hfew | hsame | rfl)
    · exact Nat.le_trans passing_sublist.length_le hfew
    · cases hkeys : passing limit [] keys with
      | nil => exact Nat.zero_le _
      | cons k rest =>
        have hmem : ∀ x ∈ passing limit [] keys, x = k := fun x hx =>
          hsame x (passing_sublist.subset hx) k
            (passing_sublist.subset (hkeys ▸ List.mem_cons_self))
        have hall : (passing limit [] keys).count k = (passing limit [] keys).length :=
          List.count_eq_length.mpr fun x hx => (hmem x hx).symm
        rw [count_passing, List.count_nil] at hall
        rw [← hkeys]
        omega
    · have hzero : passing 0 [] keys = [] := by
        refine List.eq_nil_iff_forall_not_mem.mpr fun k hk => ?_
        have hpos := List.count_pos_iff.mpr hk
        rw [count_passing] at hpos
        omega
      rw [hzero]
      exact Nat.le_refl 0

end Quota
