/-
The least that some elements of a list can add up to.

* `cheapest n l` — the sum of the `n` least elements of `l`;
* `cheapest_le_sum` — no `n` elements add up to less;
* `leastBy`, `sum_leastBy` — and some add up to it;
* `cheapest_le_cheapest` — more elements do not add up to less, if the negative ones are in
  already;
* `cheapest_succ_lt` — and else one more makes it less.
-/
import Mathlib.Data.List.Sort
import Mathlib.Algebra.Order.BigOperators.Group.List

namespace Cheapest

section

variable {α ι : Type*} [LinearOrder α] {l l' : List α} {n m : ℕ}

/-- Elements whose values are the `n` least. -/
def leastBy (f : ι → α) (n : ℕ) (l : List ι) : List ι :=
  (l.insertionSort fun x y => f x ≤ f y).take n

theorem leastBy_subperm (f : ι → α) (n : ℕ) (l : List ι) : (leastBy f n l).Subperm l :=
  (List.take_sublist _ _).subperm.trans (List.perm_insertionSort _ l).subperm

theorem length_leastBy (f : ι → α) {l : List ι} (hn : n ≤ l.length) :
    (leastBy f n l).length = n := by
  rw [leastBy, List.length_take, List.length_insertionSort, min_eq_left hn]

variable [AddCommGroup α]

/-- The sum of the `n` least elements. -/
def cheapest (n : ℕ) (l : List α) : α := ((l.insertionSort (· ≤ ·)).take n).sum

@[simp] theorem cheapest_zero : cheapest 0 l = 0 := rfl

/-- **Some elements add up to it.** -/
theorem sum_leastBy (f : ι → α) (n : ℕ) (l : List ι) :
    ((leastBy f n l).map f).sum = cheapest n (l.map f) := by
  rw [leastBy, cheapest, List.map_take, List.map_insertionSort _ _ f l fun _ _ _ _ => Iff.rfl]

/-- The elements after the first `n`, where all negative ones are among these. -/
theorem nonneg_of_mem_drop (h : l.Pairwise (· ≤ ·)) (hneg : l.countP (· < 0) ≤ n) {x : α}
    (hx : x ∈ l.drop n) : 0 ≤ x := by
  by_contra hlt
  have hlt := not_le.mp hlt
  rw [← List.take_append_drop n l, List.pairwise_append] at h
  have hall : (l.take n).countP (· < 0) = (l.take n).length :=
    List.countP_eq_length.mpr fun y hy => decide_eq_true ((h.2.2 y hy x hx).trans_lt hlt)
  have hpos : 0 < (l.drop n).countP (· < 0) :=
    List.countP_pos_iff.mpr ⟨x, hx, decide_eq_true hlt⟩
  have hlen := List.length_pos_of_mem hx
  rw [← List.take_append_drop n l, List.countP_append, hall, List.length_take] at hneg
  rw [List.length_drop] at hlen
  omega

variable [IsOrderedAddMonoid α]

/-- Without its first element a sorted list has no smaller ones. -/
theorem sum_take_cons_le {a : α} (h : (a :: l).Pairwise (· ≤ ·)) (hn : n ≤ l.length) :
    ((a :: l).take n).sum ≤ (l.take n).sum := by
  induction n generalizing a l with
  | zero => exact le_refl _
  | succ n ih =>
    rcases l with _ | ⟨b, l⟩
    · cases hn
    · rw [List.take_succ_cons, List.take_succ_cons, List.sum_cons, List.sum_cons]
      obtain ⟨ha, hl⟩ := List.pairwise_cons.mp h
      exact add_le_add (ha b List.mem_cons_self) (ih hl (Nat.le_of_succ_le_succ hn))

/-- Of a sorted list the first elements are the least. -/
theorem sum_take_le_of_sublist (h : l.Pairwise (· ≤ ·)) (hl' : l'.Sublist l) :
    (l.take l'.length).sum ≤ l'.sum := by
  induction hl' with
  | slnil => exact le_refl _
  | @cons l' l a hsub ih =>
    exact (sum_take_cons_le h hsub.length_le).trans (ih (List.pairwise_cons.mp h).2)
  | @cons_cons l' l a hsub ih =>
    rw [List.length_cons, List.take_succ_cons, List.sum_cons, List.sum_cons]
    exact add_le_add_right (ih (List.pairwise_cons.mp h).2) a

/-- **No elements add up to less.** -/
theorem cheapest_le_sum (h : l'.Subperm l) : cheapest l'.length l ≤ l'.sum := by
  have hsub := List.sublist_insertionSort' (List.pairwise_insertionSort (· ≤ ·) l')
    ((List.perm_insertionSort (· ≤ ·) l').subperm.trans h)
  have hle := sum_take_le_of_sublist (List.pairwise_insertionSort (· ≤ ·) l) hsub
  rwa [List.length_insertionSort, (List.perm_insertionSort (· ≤ ·) l').sum_eq] at hle

/-- **More elements do not add up to less**, where no negative one is left. -/
theorem cheapest_le_cheapest (h : n ≤ m) (hneg : l.countP (· < 0) ≤ n) :
    cheapest n l ≤ cheapest m l := by
  have hsorted := List.pairwise_insertionSort (· ≤ ·) l
  rw [← (List.perm_insertionSort (· ≤ ·) l).countP_eq] at hneg
  unfold cheapest
  obtain ⟨k, rfl⟩ := Nat.exists_eq_add_of_le h
  rw [List.take_add, List.sum_append]
  refine le_add_of_nonneg_right (List.sum_nonneg fun x hx => ?_)
  exact nonneg_of_mem_drop hsorted hneg (List.mem_of_mem_take hx)

/-- **One more makes it less**, where a negative one is left. -/
theorem cheapest_succ_lt (h : n < l.countP (· < 0)) : cheapest (n + 1) l < cheapest n l := by
  have hsorted := List.pairwise_insertionSort (· ≤ ·) l
  rw [← (List.perm_insertionSort (· ≤ ·) l).countP_eq] at h
  unfold cheapest
  generalize l.insertionSort (· ≤ ·) = s at h hsorted
  have hn : n < s.length := h.trans_le List.countP_le_length
  rw [List.take_add_one, List.getElem?_eq_getElem hn, Option.toList_some, List.sum_append,
    List.sum_singleton]
  refine add_lt_of_neg_right _ (not_le.mp fun hnonneg => ?_)
  -- then nothing after it is negative, and there are too few negative ones
  have hdrop : (s.drop n).countP (· < 0) = 0 := by
    rw [List.drop_eq_getElem_cons hn, List.countP_eq_zero]
    rw [← List.take_append_drop n s, List.pairwise_append, List.drop_eq_getElem_cons hn] at hsorted
    intro x hx hlt
    have hle : s[n] ≤ x := by
      rcases List.mem_cons.mp hx with rfl | hx
      · exact le_refl _
      · exact (List.pairwise_cons.mp hsorted.2.1).1 x hx
    exact absurd (of_decide_eq_true hlt) (not_lt.mpr (hnonneg.trans hle))
  rw [← List.take_append_drop n s, List.countP_append, hdrop, Nat.add_zero] at h
  have hle := (List.countP_le_length (p := fun x : α => decide (x < 0)) (l := s.take n))
  rw [List.length_take] at hle
  omega

end

end Cheapest
