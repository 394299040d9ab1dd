/-
Lists with a separator, such as a path with its slashes.

* `splitOn_isPrefix_iff` — a list begins with the pieces of another if it is that list, or
  goes on after it at a separator;
* `takeWhile_intercalate`, `dropWhile_intercalate` — the first piece, and what is left;
* `splitOn_intercalate_flatMap` — the pieces of pieces that are glued together;
* `not_of_mem_splitOnP`, `not_mem_of_mem_splitOn` — what a piece is made of;
* `mem_of_mem_intercalate`, `exists_piece` — what a glued list is made of, and where a part of it
  lies;
* `eq_of_append_cons_eq` — two pieces that one separator ends are read back.
-/
import Mathlib.Data.List.Infix
import Mathlib.Data.List.TakeWhile

namespace Separated

variable {α : Type*} {x : α} {p q s : List α} {l m : List (List α)}

theorem intercalate_append_cons (hl : l ≠ []) :
    [x].intercalate (l ++ s :: m) = [x].intercalate l ++ x :: [x].intercalate (s :: m) := by
  induction l with
  | nil => exact absurd rfl hl
  | cons a l ih =>
    rcases l with _ | ⟨b, l⟩
    · simp
    · have hrest := ih (List.cons_ne_nil _ _)
      simp only [List.cons_append, List.intercalate_cons_cons, List.append_assoc] at hrest ⊢
      rw [hrest]

/-- What comes before the first separator is read back, with what follows it. -/
theorem eq_of_append_cons_eq {p' q' : List α} (hp : x ∉ p) (hp' : x ∉ p')
    (h : p ++ x :: q = p' ++ x :: q') : p = p' ∧ q = q' := by
  induction p generalizing p' with
  | nil =>
    cases p' with
    | nil => exact ⟨rfl, (List.cons.inj h).2⟩
    | cons b p' => exact absurd (List.mem_cons.mpr (.inl (List.cons.inj h).1)) hp'
  | cons a p ih =>
    cases p' with
    | nil => exact absurd (List.mem_cons.mpr (.inl (List.cons.inj h).1.symm)) hp
    | cons b p' =>
      obtain ⟨hhead, htail⟩ := List.cons.inj h
      obtain ⟨hrest, hq⟩ := ih (fun hm => hp (List.mem_cons_of_mem _ hm))
        (fun hm => hp' (List.mem_cons_of_mem _ hm)) htail
      exact ⟨congrArg₂ _ hhead hrest, hq⟩

/-- A separator does not stand in what has none. -/
theorem exists_of_append_eq_append_cons {a b u : List α} (hu : x ∉ u) (h : u ++ s = a ++ x :: b) :
    ∃ p, a = u ++ p ∧ s = p ++ x :: b := by
  rcases List.append_eq_append_iff.mp h with ⟨p, rfl, hs⟩ | ⟨p, rfl, hp⟩
  · exact ⟨p, rfl, hs⟩
  · rcases p with _ | ⟨y, p⟩
    · exact ⟨[], by simp, hp.symm⟩
    · obtain ⟨rfl, -⟩ := List.cons.inj hp
      exact absurd (by simp) hu

/-- Every separator stands between two pieces. -/
theorem exists_of_intercalate_eq_append_cons {a b : List α} (hl : ∀ s ∈ l, x ∉ s)
    (h : [x].intercalate l = a ++ x :: b) :
    ∃ l₁ l₂, l = l₁ ++ l₂ ∧ l₁ ≠ [] ∧ l₂ ≠ [] ∧ [x].intercalate l₂ = b := by
  induction l generalizing a with
  | nil => exact absurd h.symm (by simp)
  | cons s l ih =>
    obtain ⟨hs, hl⟩ := List.forall_mem_cons.mp hl
    rcases l with _ | ⟨s', l⟩
    · rw [List.intercalate_singleton] at h
      exact absurd (by rw [h]; simp) hs
    rw [List.intercalate_cons_cons, List.append_assoc] at h
    rcases List.append_eq_append_iff.mp h with ⟨c, rfl, hc⟩ | ⟨c, rfl, hc⟩
    · rcases c with _ | ⟨y, c⟩
      · exact ⟨[s], s' :: l, rfl, by simp, by simp, (List.cons.inj hc).2⟩
      · obtain ⟨l₁, l₂, heq, -, hl₂, hb⟩ := ih hl (List.cons.inj hc).2
        exact ⟨s :: l₁, l₂, by rw [heq]; rfl, by simp, hl₂, hb⟩
    · rcases c with _ | ⟨y, c⟩
      · exact ⟨[_], s' :: l, rfl, by simp, by simp, (List.cons.inj hc).2.symm⟩
      · obtain ⟨rfl, -⟩ := List.cons.inj hc
        exact absurd (by simp) hs

/-- What has no separator in it lies in one piece. -/
theorem exists_piece {w pre post : List α} (hw : x ∉ w) (hl : l ≠ [])
    (h : [x].intercalate l = pre ++ (w ++ post)) :
    ∃ l₁ s l₂ p q, l = l₁ ++ s :: l₂ ∧ s = p ++ (w ++ q) ∧ (l₁ = [] → pre = p) ∧
      (l₂ = [] → post = q) := by
  induction l generalizing pre with
  | nil => exact absurd rfl hl
  | cons s l ih =>
    rcases l with _ | ⟨s', l⟩
    · rw [List.intercalate_singleton] at h
      exact ⟨[], s, [], pre, post, rfl, h, fun _ => rfl, fun _ => rfl⟩
    rw [List.intercalate_cons_cons, List.append_assoc] at h
    have hhere : ∀ c, s = pre ++ c → w ++ post = c ++ x :: [x].intercalate (s' :: l) →
        ∃ l₁ t l₂ p q, s :: s' :: l = l₁ ++ t :: l₂ ∧ t = p ++ (w ++ q) ∧ (l₁ = [] → pre = p) ∧
          (l₂ = [] → post = q) := by
      intro c hs hc
      rcases List.append_eq_append_iff.mp hc with ⟨d, rfl, -⟩ | ⟨d, rfl, hd⟩
      · exact ⟨[], s, s' :: l, pre, d, rfl, hs, fun _ => rfl, fun h => absurd h (by simp)⟩
      · rcases d with _ | ⟨y, d⟩
        · refine ⟨[], s, s' :: l, pre, [], rfl, by rw [hs]; simp, fun _ => rfl, fun h => absurd h (by simp)⟩
        · obtain ⟨rfl, -⟩ := List.cons.inj hd
          exact absurd (by simp) hw
    rcases List.append_eq_append_iff.mp h with ⟨c, rfl, hc⟩ | ⟨c, hs, hc⟩
    · rcases c with _ | ⟨y, c⟩
      · exact hhere [] (by simp) hc.symm
      · obtain ⟨l₁, t, l₂, p, q, heq, ht, -, hpost⟩ := ih (by simp) (List.cons.inj hc).2
        exact ⟨s :: l₁, t, l₂, p, q, by rw [heq]; rfl, ht, fun h => absurd h (by simp), hpost⟩
    · exact hhere c hs hc

/-- What is in the glued list is the separator, or in a piece. -/
theorem mem_of_mem_intercalate {a : α} (h : a ∈ [x].intercalate l) : a = x ∨ ∃ s ∈ l, a ∈ s := by
  induction l with
  | nil => cases h
  | cons s l ih =>
    rcases l with _ | ⟨t, l⟩
    · rw [List.intercalate_singleton] at h
      exact .inr ⟨s, List.mem_singleton_self s, h⟩
    · rw [List.intercalate_cons_cons, List.append_assoc] at h
      rcases List.mem_append.mp h with h | h
      · exact .inr ⟨s, List.mem_cons_self, h⟩
      · rcases List.mem_cons.mp h with rfl | h
        · exact .inl rfl
        · obtain rfl | ⟨u, hu, ha⟩ := ih h
          · exact .inl rfl
          · exact .inr ⟨u, List.mem_cons_of_mem s hu, ha⟩

/-- **A list begins with the pieces of `p` if it goes on after `p` at a separator.** -/
theorem splitOn_isPrefix_iff [DecidableEq α] : p.splitOn x <+: q.splitOn x ↔ q = p ∨ p ++ [x] <+: q := by
  constructor
  · rintro ⟨t, ht⟩
    have hq : [x].intercalate (p.splitOn x ++ t) = q := by
      rw [ht, List.intercalate_splitOn]
    cases t with
    | nil =>
      rw [List.append_nil, List.intercalate_splitOn] at hq
      exact .inl hq.symm
    | cons s t =>
      rw [intercalate_append_cons (List.splitOn_ne_nil x p), List.intercalate_splitOn] at hq
      exact .inr ⟨_, by rw [List.append_assoc]; exact hq⟩
  · rintro (rfl | ⟨r, rfl⟩)
    · exact List.prefix_refl _
    · rw [List.append_assoc, List.singleton_append, List.splitOn_append_cons_self]
      exact List.prefix_append _ _

theorem splitOn_intercalate_flatMap [DecidableEq α] (hl : l ≠ []) :
    ([x].intercalate l).splitOn x = l.flatMap fun s => s.splitOn x := by
  induction l with
  | nil => exact absurd rfl hl
  | cons a l ih =>
    rcases l with _ | ⟨b, l⟩
    · simp
    · have hrest := ih (List.cons_ne_nil b l)
      rw [List.intercalate_cons_cons, List.append_assoc, List.singleton_append,
        List.splitOn_append_cons_self, hrest]
      rfl

/-- No piece has a separator in it. -/
theorem not_of_mem_splitOnP {f : α → Bool} (h : s ∈ p.splitOnP f) {a : α} (ha : a ∈ s) :
    f a = false := by
  induction p generalizing s with
  | nil =>
    rw [List.splitOnP_nil, List.mem_singleton] at h
    rw [h] at ha
    cases ha
  | cons b p ih =>
    obtain ⟨t, ts, ht⟩ := List.exists_cons_of_ne_nil (List.splitOnP_ne_nil f p)
    rw [List.splitOnP_cons_eq_if_modifyHead, ht] at h
    split at h
    · rcases List.mem_cons.mp h with rfl | h
      · cases ha
      · exact ih (ht ▸ h) ha
    · next hb =>
      rw [List.modifyHead_cons] at h
      rcases List.mem_cons.mp h with rfl | h
      · rcases List.mem_cons.mp ha with rfl | ha
        · exact Bool.eq_false_iff.mpr hb
        · exact ih (ht ▸ List.mem_cons_self) ha
      · exact ih (ht ▸ List.mem_cons_of_mem t h) ha

theorem not_mem_of_mem_splitOn [DecidableEq α] (h : s ∈ p.splitOn x) : x ∉ s := by
  rw [List.splitOn_eq_splitOnP] at h
  intro hx
  have hno := not_of_mem_splitOnP h hx
  rw [beq_self_eq_true] at hno
  cases hno

section

variable [DecidableEq α]

theorem takeWhile_intercalate (hs : x ∉ s) :
    ([x].intercalate (s :: m)).takeWhile (fun c => decide (c ≠ x)) = s := by
  have hpos : ∀ c ∈ s, decide (c ≠ x) = true := fun c hc => decide_eq_true fun he => hs (he ▸ hc)
  cases m with
  | nil =>
    rw [List.intercalate_singleton]
    exact List.takeWhile_eq_self_iff.mpr hpos
  | cons t m =>
    rw [List.intercalate_cons_cons, List.append_assoc, List.takeWhile_append_of_pos hpos]
    simp

/-- What follows the first piece, with its separator. -/
theorem dropWhile_intercalate (hs : x ∉ s) :
    ([x].intercalate (s :: m)).dropWhile (fun c => decide (c ≠ x)) =
      if m = [] then [] else x :: [x].intercalate m := by
  have hpos : ∀ c ∈ s, decide (c ≠ x) = true := fun c hc => decide_eq_true fun he => hs (he ▸ hc)
  cases m with
  | nil =>
    rw [List.intercalate_singleton, if_pos rfl]
    exact List.dropWhile_eq_nil_iff.mpr hpos
  | cons t m =>
    rw [List.intercalate_cons_cons, List.append_assoc, List.dropWhile_append_of_pos hpos,
      if_neg (List.cons_ne_nil t m)]
    simp

end

end Separated
