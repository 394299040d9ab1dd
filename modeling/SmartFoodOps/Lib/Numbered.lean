/-
Pages by number: a page is a slice of a list, and one element more tells whether there is another.

* `slice`, `Page`, `Page.ofHits` — what is fetched for a page, and what becomes of it;
* `Walk` — the pages from a number on, one after another, until there are no more;
* `walk_slices_iff` — where every page is a slice of a list of its own, the walk reads a given list
  if and only if the pages do;
* `walk_slice` — where they are slices of one list, the walk reads it;
* `walk_image_iff` — what a walk reads, if something is made of each page.
-/
import Mathlib.Data.List.Basic

namespace Numbered

variable {β γ : Type*}

/-- `l[offset : offset + limit]`. -/
def slice (l : List β) (limit offset : ℕ) : List β := (l.drop offset).take limit

structure Page (β : Type*) where
  items : List β
  hasMore : Bool

/-- More hits than the page holds show that there are more. -/
def Page.ofHits (size : ℕ) (hits : List β) : Page β := ⟨hits.take size, size < hits.length⟩

/-- What is read from page `p` on. -/
inductive Walk (pages : ℕ → Page β) : ℕ → List β → Prop
  | last {p : ℕ} (h : (pages p).hasMore = false) : Walk pages p (pages p).items
  | more {p : ℕ} {rest : List β} (h : (pages p).hasMore = true) (hrest : Walk pages (p + 1) rest) :
      Walk pages p ((pages p).items ++ rest)

variable {pages : ℕ → Page β} {p q n size : ℕ} {l items whole : List β} {lists : ℕ → List β}

/-! ### Slices -/

theorem length_slice {limit offset : ℕ} :
    (slice l limit offset).length = min limit (l.length - offset) := by
  unfold slice
  rw [List.length_take, List.length_drop]

/-- A list from a page on is the page, and the list from the next. -/
theorem slice_append_drop : slice l size (p * size) ++ l.drop ((p + 1) * size) =
    l.drop (p * size) := by
  unfold slice
  rw [Nat.succ_mul, ← List.drop_drop, List.take_append_drop]

theorem slice_of_length_le (h : l.length ≤ (p + 1) * size) :
    slice l size (p * size) = l.drop (p * size) := by
  unfold slice
  refine List.take_of_length_le ?_
  rw [List.length_drop]
  rw [Nat.succ_mul] at h
  omega

/-- The page that is made of a slice of one element more. -/
def fetched (size : ℕ) (l : List β) (p : ℕ) : Page β :=
  .ofHits size (slice l (size + 1) (p * size))

theorem items_fetched : (fetched size l p).items = slice l size (p * size) := by
  show ((l.drop (p * size)).take (size + 1)).take size = _
  rw [List.take_take, Nat.min_eq_left (Nat.le_succ size)]
  rfl

theorem hasMore_fetched : (fetched size l p).hasMore = true ↔ (p + 1) * size < l.length := by
  show decide (size < (slice l (size + 1) (p * size)).length) = true ↔ _
  rw [decide_eq_true_eq, length_slice, Nat.succ_mul]
  omega

theorem hasMore_fetched_eq_false :
    (fetched size l p).hasMore = false ↔ l.length ≤ (p + 1) * size := by
  rw [← Bool.not_eq_true, hasMore_fetched, Nat.not_lt]

/-! ### Walks -/

/-- A walk reads one list. -/
theorem Walk.unique {items' : List β} (h : Walk pages p items) (h' : Walk pages p items') :
    items = items' := by
  induction h generalizing items' with
  | last hlast =>
    cases h' with
    | last => rfl
    | more hmore => exact absurd (hlast.symm.trans hmore) Bool.false_ne_true
  | more hmore _ ih =>
    cases h' with
    | last hlast => exact absurd (hlast.symm.trans hmore) Bool.false_ne_true
    | more _ hrest => rw [ih hrest]

theorem Walk.mem {x : β} (h : Walk pages p items) (hx : x ∈ items) : ∃ q, x ∈ (pages q).items := by
  induction h with
  | last => exact ⟨_, hx⟩
  | more _ _ ih =>
    rcases List.mem_append.mp hx with hx | hx
    · exact ⟨_, hx⟩
    · exact ih hx

/-- Up to page `n` each list is longer than its page reaches and gives the page that `whole` has;
the list of page `n` ends with it, where `whole` ends. -/
structure Covers (size : ℕ) (lists : ℕ → List β) (whole : List β) (p n : ℕ) : Prop where
  more : ∀ q, p ≤ q → q < n → (q + 1) * size < (lists q).length
  page : ∀ q, p ≤ q → q < n → slice (lists q) size (q * size) = slice whole size (q * size)
  ends : (lists n).length ≤ (n + 1) * size
  last : (lists n).drop (n * size) = whole.drop (n * size)

/-- **A walk** through slices of lists that differ reads `whole` where its pages do. -/
theorem walk_slices_iff : Walk (fun q => fetched size (lists q) q) p (whole.drop (p * size)) ↔
    ∃ n, p ≤ n ∧ Covers size lists whole p n := by
  constructor
  · generalize hitems : whole.drop (p * size) = items
    intro h
    induction h with
    | @last p hlast =>
      have hends := hasMore_fetched_eq_false.mp hlast
      refine ⟨p, Nat.le_refl p, fun q hpq hqp => absurd hqp (Nat.not_lt.mpr hpq),
        fun q hpq hqp => absurd hqp (Nat.not_lt.mpr hpq), hends, ?_⟩
      rw [hitems, items_fetched, slice_of_length_le hends]
    | @more p rest hmore hrest ih =>
      have hlong := hasMore_fetched.mp hmore
      have hlength : (slice (lists p) size (p * size)).length = size := by
        rw [length_slice]
        rw [Nat.succ_mul] at hlong
        omega
      rw [items_fetched] at hitems
      -- the page is full, so `whole` is cut where it ends
      have hpage : slice (lists p) size (p * size) = slice whole size (p * size) := by
        show _ = (whole.drop (p * size)).take size
        rw [hitems, List.take_left' hlength]
      have hdrop : whole.drop ((p + 1) * size) = rest := by
        rw [Nat.succ_mul, ← List.drop_drop, hitems, List.drop_left' hlength]
      obtain ⟨n, hn, hcovers⟩ := ih hdrop
      refine ⟨n, Nat.le_of_succ_le hn, fun q hpq hqn => ?_, fun q hpq hqn => ?_, hcovers.ends,
        hcovers.last⟩
      · rcases Nat.eq_or_lt_of_le hpq with rfl | hlt
        · exact hlong
        · exact hcovers.more q hlt hqn
      · rcases Nat.eq_or_lt_of_le hpq with rfl | hlt
        · exact hpage
        · exact hcovers.page q hlt hqn
  · rintro ⟨n, hn, hcovers⟩
    obtain ⟨k, rfl⟩ := Nat.exists_eq_add_of_le hn
    induction k generalizing p with
    | zero =>
      have hends : (lists p).length ≤ (p + 1) * size := hcovers.ends
      have hlast : (lists p).drop (p * size) = whole.drop (p * size) := hcovers.last
      have hwalk := @Walk.last _ (fun q => fetched size (lists q) q) p
        (hasMore_fetched_eq_false.mpr hends)
      rwa [items_fetched, slice_of_length_le hends, hlast] at hwalk
    | succ k ih =>
      have hlt : p < p + (k + 1) := Nat.lt_add_of_pos_right (Nat.succ_pos k)
      have hmore := hasMore_fetched.mpr (hcovers.more p (Nat.le_refl p) hlt)
      have heq : p + 1 + k = p + (k + 1) := by omega
      have hrest := @ih (p + 1) (Nat.le_add_right _ _) (heq ▸
        ⟨fun q hpq => hcovers.more q (Nat.le_of_succ_le hpq),
          fun q hpq => hcovers.page q (Nat.le_of_succ_le hpq), hcovers.ends, hcovers.last⟩)
      have hwalk := @Walk.more _ (fun q => fetched size (lists q) q) p _ hmore hrest
      rwa [items_fetched, hcovers.page p (Nat.le_refl p) hlt, slice_append_drop] at hwalk

/-- **A walk** through slices of one list reads the list. -/
theorem walk_slice (hsize : 0 < size) : Walk (fun q => fetched size l q) 0 l := by
  have hends : l.length - 1 < ((l.length - 1) / size + 1) * size :=
    (Nat.div_lt_iff_lt_mul hsize).mp (Nat.lt_succ_self _)
  have hwalk := (@walk_slices_iff _ 0 size l fun _ => l).mpr ⟨(l.length - 1) / size, Nat.zero_le _,
    fun q _ hq => ?_, fun _ _ _ => rfl, by omega, rfl⟩
  · rwa [Nat.zero_mul] at hwalk
  · have hle : (q + 1) * size ≤ l.length - 1 :=
      Nat.le_trans (Nat.mul_le_mul_right size hq) (Nat.div_mul_le_self _ _)
    have hpos : 0 < (q + 1) * size := Nat.mul_pos (Nat.succ_pos q) hsize
    omega

/-- What is made of each page is made of what the walk reads. -/
theorem walk_image_iff {g : List β → List γ} (hg : ∀ a b, g (a ++ b) = g a ++ g b)
    {read : List γ} : Walk (fun q => ⟨g (pages q).items, (pages q).hasMore⟩) p read ↔
      ∃ items, Walk pages p items ∧ read = g items := by
  constructor
  · intro h
    induction h with
    | last hlast => exact ⟨_, .last hlast, rfl⟩
    | more hmore _ ih =>
      obtain ⟨items, hwalk, rfl⟩ := ih
      exact ⟨_, .more hmore hwalk, (hg _ _).symm⟩
  · rintro ⟨items, h, rfl⟩
    induction h with
    | @last p hlast => exact @Walk.last _ (fun q => ⟨g (pages q).items, (pages q).hasMore⟩) p hlast
    | @more p rest hmore _ ih =>
      rw [hg]
      exact @Walk.more _ (fun q => ⟨g (pages q).items, (pages q).hasMore⟩) p _ hmore ih

end Numbered
