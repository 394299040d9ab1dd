/-
Lists as rankings.

* `Before` — one element stands before another;
* `before_insertionSort_iff` — a sort by a key ranks by the key; `insertionSort_congr` — and so does
  a stable one by the first part of the key;
* `Raised` — one element has been moved up: it stands before all that stood behind it
  (`Raised.before`), and nothing else has gained a place (`Raised.idxOf_le`);
* `idxOf_le_of_before` — who has fewer before it has the better place;
* `before_take` — what is cut off at the end changes nothing before.
-/
import Mathlib.Data.List.Sort
import Mathlib.Data.List.Nodup

namespace Ranking

variable {α κ : Type*} [DecidableEq α] {l l' p m s : List α} {a b c : α} {n : ℕ}

/-- `a` stands before `b`. -/
def Before (l : List α) (a b : α) : Prop := b ∈ l ∧ l.idxOf a < l.idxOf b

instance : Decidable (Before l a b) := inferInstanceAs (Decidable (_ ∧ _))

theorem Before.mem (h : Before l a b) : a ∈ l :=
  List.idxOf_lt_length_iff.mp (h.2.trans (List.idxOf_lt_length_iff.mpr h.1))

theorem Before.asymm (h : Before l a b) : ¬ Before l b a := fun h' => Nat.lt_asymm h.2 h'.2

theorem before_or_before (ha : a ∈ l) (hb : b ∈ l) (hne : a ≠ b) : Before l a b ∨ Before l b a := by
  rcases Nat.lt_trichotomy (l.idxOf a) (l.idxOf b) with h | h | h
  · exact .inl ⟨hb, h⟩
  · exact absurd ((List.idxOf_inj ha).mp h) hne
  · exact .inr ⟨ha, h⟩

/-- Behind an element stands the rest of the list. -/
theorem before_append_cons_iff (hd : (l ++ a :: s).Nodup) : Before (l ++ a :: s) a c ↔ c ∈ s := by
  obtain ⟨-, hs, hdisj⟩ := List.nodup_append.mp hd
  have hal : a ∉ l := fun h => hdisj a h a List.mem_cons_self rfl
  have ha : (l ++ a :: s).idxOf a = l.length := by
    rw [List.idxOf_append_of_notMem hal, List.idxOf_cons_self, Nat.add_zero]
  unfold Before
  rw [ha]
  constructor
  · rintro ⟨hc, hlt⟩
    have hcl : c ∉ l := fun h => by
      rw [List.idxOf_append_of_mem h] at hlt
      exact Nat.lt_asymm hlt (List.idxOf_lt_length_iff.mpr h)
    rcases List.mem_cons.mp ((List.mem_append.mp hc).resolve_left hcl) with rfl | hc
    · rw [ha] at hlt
      exact absurd hlt (Nat.lt_irrefl _)
    · exact hc
  · intro hc
    have hcl : c ∉ l := fun h => hdisj c h c (List.mem_cons_of_mem _ hc) rfl
    have hne : a ≠ c := by
      rintro rfl
      exact (List.nodup_cons.mp hs).1 hc
    refine ⟨List.mem_append_right _ (List.mem_cons_of_mem _ hc), ?_⟩
    rw [List.idxOf_append_of_notMem hcl, List.idxOf_cons_ne _ hne]
    omega

/-! ### Sorting -/

/-- **A sort by a key** ranks by the key. -/
theorem before_insertionSort_iff [LinearOrder κ] {key : α → κ}
    (hinj : ∀ a ∈ l, ∀ b ∈ l, key a = key b → a = b) :
    Before (l.insertionSort fun a b => key a ≤ key b) a b ↔ a ∈ l ∧ b ∈ l ∧ key a < key b := by
  have hperm := List.perm_insertionSort (fun a b => key a ≤ key b) l
  have hsorted : (l.insertionSort fun a b => key a ≤ key b).Pairwise fun a b => key a ≤ key b :=
    haveI : IsTrans α fun a b => key a ≤ key b := ⟨fun _ _ _ h h' => h.trans h'⟩
    haveI : Std.Total fun a b : α => key a ≤ key b := ⟨fun a b => le_total (key a) (key b)⟩
    List.pairwise_insertionSort _ l
  have hle : ∀ {a b}, Before (l.insertionSort fun a b => key a ≤ key b) a b → key a ≤ key b := by
    intro a b h
    have hb := List.idxOf_lt_length_iff.mpr h.1
    have hget := List.pairwise_iff_getElem.mp hsorted _ _ (h.2.trans hb) hb h.2
    rw [List.getElem_idxOf, List.getElem_idxOf] at hget
    exact hget
  constructor
  · intro h
    have ha := hperm.mem_iff.mp h.mem
    have hb := hperm.mem_iff.mp h.1
    refine ⟨ha, hb, lt_of_le_of_ne (hle h) fun heq => ?_⟩
    obtain rfl := hinj a ha b hb heq
    exact Nat.lt_irrefl _ h.2
  · rintro ⟨ha, hb, hlt⟩
    have hne : a ≠ b := by
      rintro rfl
      exact lt_irrefl _ hlt
    refine (before_or_before (hperm.mem_iff.mpr ha) (hperm.mem_iff.mpr hb) hne).resolve_right ?_
    exact fun h => absurd hlt (not_lt_of_ge (hle h))

/-- Two relations that agree from the front to the back sort alike. -/
theorem insertionSort_congr {r r' : α → α → Prop} [DecidableRel r] [DecidableRel r']
    (h : l.Pairwise fun a b => (r a b ↔ r' a b)) : l.insertionSort r = l.insertionSort r' := by
  have hinsert : ∀ (a : α) (s : List α), (∀ b ∈ s, (r a b ↔ r' a b)) →
      s.orderedInsert r a = s.orderedInsert r' a := by
    intro a s
    induction s with
    | nil => exact fun _ => rfl
    | cons b s ih =>
      intro hs
      simp only [List.orderedInsert, hs b List.mem_cons_self,
        ih fun c hc => hs c (List.mem_cons_of_mem _ hc)]
  induction l with
  | nil => rfl
  | cons a l ih =>
    obtain ⟨ha, hl⟩ := List.pairwise_cons.mp h
    rw [List.insertionSort_cons, List.insertionSort_cons, ih hl]
    exact hinsert a _ fun b hb => ha b ((List.mem_insertionSort r').mp hb)

/-! ### Moving up -/

/-- One element has been moved up, and all else is in the same order. -/
def Raised (a : α) (l l' : List α) : Prop :=
  ∃ p m s, l = p ++ m ++ a :: s ∧ l' = p ++ a :: (m ++ s)

omit [DecidableEq α] in
theorem Raised.perm (h : Raised a l l') : l.Perm l' := by
  obtain ⟨p, m, s, rfl, rfl⟩ := h
  rw [List.append_assoc]
  exact List.perm_middle.append_left p

omit [DecidableEq α] in
theorem Raised.append (h : Raised a l l') (u v : List α) : Raised a (u ++ l ++ v) (u ++ l' ++ v) := by
  obtain ⟨p, m, s, rfl, rfl⟩ := h
  exact ⟨u ++ p, m, s ++ v, by simp, by simp⟩

omit [DecidableEq α] in
theorem Raised.map {β : Type*} (h : Raised a l l') (f : α → β) : Raised (f a) (l.map f) (l'.map f) := by
  obtain ⟨p, m, s, rfl, rfl⟩ := h
  exact ⟨p.map f, m.map f, s.map f, by simp, by simp⟩

omit [DecidableEq α] in
theorem Raised.filter (h : Raised a l l') (q : α → Bool) :
    l.filter q = l'.filter q ∨ Raised a (l.filter q) (l'.filter q) := by
  obtain ⟨p, m, s, rfl, rfl⟩ := h
  by_cases ha : q a = true
  · exact .inr ⟨p.filter q, m.filter q, s.filter q, by simp [ha], by simp [ha]⟩
  · exact .inl (by simp [ha])

/-- It still stands before what it stood before. -/
theorem Raised.before (h : Raised a l l') (hd : l.Nodup) (hb : Before l a c) : Before l' a c := by
  have hd' := h.perm.nodup_iff.mp hd
  obtain ⟨p, m, s, rfl, rfl⟩ := h
  exact (before_append_cons_iff hd').mpr
    (List.mem_append_right _ ((before_append_cons_iff hd).mp hb))

/-- It has gained. -/
theorem Raised.idxOf_self (h : Raised a l l') (hd : l.Nodup) : l'.idxOf a ≤ l.idxOf a := by
  have hd' := h.perm.nodup_iff.mp hd
  obtain ⟨p, m, s, rfl, rfl⟩ := h
  have hpm : a ∉ p ++ m := fun h =>
    (List.nodup_append.mp hd).2.2 a h a List.mem_cons_self rfl
  have hp : a ∉ p := fun h => hpm (List.mem_append_left _ h)
  rw [List.idxOf_append_of_notMem hpm, List.idxOf_append_of_notMem hp, List.idxOf_cons_self,
    List.idxOf_cons_self, List.length_append]
  omega

/-- And nothing else has. -/
theorem Raised.idxOf_le (h : Raised a l l') (hne : a ≠ c) : l.idxOf c ≤ l'.idxOf c := by
  obtain ⟨p, m, s, rfl, rfl⟩ := h
  rw [List.append_assoc]
  by_cases hp : c ∈ p
  · rw [List.idxOf_append_of_mem hp, List.idxOf_append_of_mem hp]
  · rw [List.idxOf_append_of_notMem hp, List.idxOf_append_of_notMem hp, List.idxOf_cons_ne _ hne]
    by_cases hm : c ∈ m
    · rw [List.idxOf_append_of_mem hm, List.idxOf_append_of_mem hm]
      omega
    · rw [List.idxOf_append_of_notMem hm, List.idxOf_append_of_notMem hm, List.idxOf_cons_ne _ hne]
      omega

/-- Fewer before it, a better place. -/
theorem idxOf_le_of_before (hd : l'.Nodup) (ha : a ∈ l') (hb : ∀ c, Before l' c a → Before l c a) :
    l'.idxOf a ≤ l.idxOf a := by
  have hsub : l'.take (l'.idxOf a) ⊆ l.take (l.idxOf a) := by
    intro c hc
    have hc' := hb c ⟨ha, (List.mem_take_iff_idxOf_lt (List.mem_of_mem_take hc)).mp hc⟩
    exact (List.mem_take_iff_idxOf_lt hc'.mem).mpr hc'.2
  have hlen := (List.subperm_of_subset (hd.sublist (List.take_sublist _ _)) hsub).length_le
  rw [List.length_take_of_le (Nat.le_of_lt (List.idxOf_lt_length_iff.mpr ha))] at hlen
  exact hlen.trans (List.length_take_le _ _)

/-! ### Cutting off -/

theorem idxOf_take (hb : b ∈ l.take n) : (l.take n).idxOf b = l.idxOf b :=
  (List.take_prefix n l).idxOf_eq_of_mem hb

/-- Who stands before one that is kept is kept. -/
theorem before_take (h : Before l a b) (hb : b ∈ l.take n) : Before (l.take n) a b := by
  have hlt := (List.mem_take_iff_idxOf_lt h.1).mp hb
  have ha : a ∈ l.take n := (List.mem_take_iff_idxOf_lt h.mem).mpr (h.2.trans hlt)
  refine ⟨hb, ?_⟩
  rw [idxOf_take ha, idxOf_take hb]
  exact h.2

/-- A better place is kept, if the worse one was. -/
theorem mem_take_of_idxOf_le (ha : a ∈ l.take n) (ha' : a ∈ l') (hle : l'.idxOf a ≤ l.idxOf a) :
    a ∈ l'.take n ∧ (l'.take n).idxOf a ≤ (l.take n).idxOf a := by
  have hlt := (List.mem_take_iff_idxOf_lt (List.mem_of_mem_take ha)).mp ha
  have hmem : a ∈ l'.take n := (List.mem_take_iff_idxOf_lt ha').mpr (hle.trans_lt hlt)
  refine ⟨hmem, ?_⟩
  rw [idxOf_take ha, idxOf_take hmem]
  exact hle

end Ranking
