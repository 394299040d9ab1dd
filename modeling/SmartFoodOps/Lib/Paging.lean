/-
Keyset paging: the latest rows first, and each page goes on below the last row of the one before.

* `below`, `page` — the rows below a cursor, and the first of them, with the next cursor;
* `Walk` — pages read one after another until there is no next one, while the rows may change;
* `pairwise_walk` — no row is read twice, and the latest are read first;
* `mem_walk` — what is there from the beginning is read, if changes keep the stamps of rows;
* `exists_walk` — a walk comes to its end, if nothing changes.
-/
import SmartFoodOps.Lib.Keyed

namespace Paging

open Keyed

variable {β γ σ : Type*} [LinearOrder γ]

def below (stamp : β → γ) (before : Option γ) (l : List β) : List β :=
  l.filter fun x => before.all fun c => stamp x < c

structure Page (β γ : Type*) where
  items : List β
  next : Option γ

/-- One row more than the limit is looked for, to know whether there is more. -/
def page (stamp : β → γ) (limit : ℕ) (before : Option γ) (l : List β) : Page β γ :=
  let rows := latest stamp (limit + 1) (below stamp before l)
  ⟨rows.take limit, if limit < rows.length then (rows.take limit).getLast?.map stamp else none⟩

/-- The pages that are read from `before` on, while the rows change by `R`. -/
inductive Walk (stamp : β → γ) (rows : σ → List β) (R : σ → σ → Prop) (limit : ℕ) :
    σ → Option γ → List β → σ → Prop
  | last {s : σ} {before : Option γ} (h : (page stamp limit before (rows s)).next = none) :
      Walk stamp rows R limit s before (page stamp limit before (rows s)).items s
  | more {s s' s'' : σ} {before : Option γ} {c : γ} {rest : List β}
      (h : (page stamp limit before (rows s)).next = some c) (hs : R s s')
      (hrest : Walk stamp rows R limit s' (some c) rest s'') :
      Walk stamp rows R limit s before ((page stamp limit before (rows s)).items ++ rest) s''

variable {stamp : β → γ} {limit : ℕ} {before : Option γ} {c : γ} {l items : List β} {x : β}
  {rows : σ → List β} {R : σ → σ → Prop} {s s' : σ}

theorem mem_below : x ∈ below stamp before l ↔ x ∈ l ∧ ∀ c ∈ before, stamp x < c := by
  cases before with
  | none => simp [below]
  | some c => simp [below]

theorem stamped_below (hl : Stamped stamp l) : Stamped stamp (below stamp before l) :=
  ⟨hl.1.filter _, fun x hx y hy => hl.2 x (mem_below.mp hx).1 y (mem_below.mp hy).1⟩

theorem items_page :
    (page stamp limit before l).items = latest stamp limit (below stamp before l) :=
  take_latest (Nat.le_succ limit)

theorem mem_of_mem_page (hx : x ∈ (page stamp limit before l).items) :
    x ∈ l ∧ ∀ c ∈ before, stamp x < c := by
  rw [items_page] at hx
  exact mem_below.mp (mem_of_mem_latest hx)

/-- The next cursor is the stamp of the last row. -/
theorem next_page (hl : Stamped stamp l) (h : (page stamp limit before l).next = some c) :
    limit < (below stamp before l).length ∧ (∃ x ∈ (page stamp limit before l).items, stamp x = c) ∧
      ∀ x ∈ (page stamp limit before l).items, c ≤ stamp x := by
  have hsorted : (page stamp limit before l).items.Pairwise fun x y => stamp y < stamp x := by
    rw [items_page]
    exact pairwise_latest (stamped_below hl)
  have hsplit : limit < (latest stamp (limit + 1) (below stamp before l)).length ∧
      (page stamp limit before l).items.getLast?.map stamp = some c := by
    unfold page at h
    dsimp only at h
    split at h
    · next hlen => exact ⟨hlen, h⟩
    · cases h
  obtain ⟨hlen, hlast⟩ := hsplit
  obtain ⟨y, hy, rfl⟩ := Option.map_eq_some_iff.mp hlast
  refine ⟨?_, ⟨y, List.mem_of_getLast? hy, rfl⟩, fun x hx => ?_⟩
  · rw [length_latest] at hlen
    omega
  · obtain ⟨init, hinit⟩ := List.getLast?_eq_some_iff.mp hy
    rw [hinit] at hx hsorted
    rcases List.mem_append.mp hx with hx | hx
    · exact ((List.pairwise_append.mp hsorted).2.2 x hx y List.mem_cons_self).le
    · rw [List.mem_singleton.mp hx]

/-- A row that is not on the page comes after the next cursor; if there is none, all are on it. -/
theorem mem_page_or_lt (hl : Stamped stamp l) (hlimit : 0 < limit) (hx : x ∈ below stamp before l) :
    x ∈ (page stamp limit before l).items ∨
      ∃ c, (page stamp limit before l).next = some c ∧ stamp x < c := by
  by_cases hmem : x ∈ (page stamp limit before l).items
  · exact .inl hmem
  · have hlen : limit < (below stamp before l).length := by
      by_contra hle
      refine hmem ?_
      rw [items_page]
      exact mem_latest_of_length_le (Nat.le_of_not_lt hle) hx
    have hlatest : ¬ (latest stamp limit (below stamp before l)) = [] := by
      intro he
      have hzero := @length_latest β γ _ stamp (below stamp before l) limit
      rw [he, List.length_nil] at hzero
      omega
    obtain ⟨y, hy⟩ :=
      Option.ne_none_iff_exists'.mp (fun h => hlatest (List.getLast?_eq_none_iff.mp h))
    refine .inr ⟨stamp y, ?_, ?_⟩
    · unfold page
      dsimp only
      rw [if_pos (by rw [length_latest]; omega), take_latest (Nat.le_succ limit), hy]
      rfl
    · rw [items_page] at hmem
      exact lt_of_not_mem_latest (stamped_below hl) hx hmem (List.mem_of_getLast? hy)

theorem lt_of_mem_walk (hwalk : Walk stamp rows R limit s before items s') (hx : x ∈ items)
    (hrows : ∀ s, Stamped stamp (rows s)) : ∀ c ∈ before, stamp x < c := by
  induction hwalk with
  | last h => exact (mem_of_mem_page hx).2
  | @more s s' s'' before c' rest h hs hrest ih =>
    rcases List.mem_append.mp hx with hx | hx
    · exact (mem_of_mem_page hx).2
    · -- what comes later is below the last row of the page
      obtain ⟨-, ⟨y, hy, rfl⟩, -⟩ := next_page (hrows s) h
      exact fun c hc => (ih hx _ rfl).trans ((mem_of_mem_page hy).2 c hc)

/-- **A walk** goes down from the latest, so it reads no row twice. -/
theorem pairwise_walk (hwalk : Walk stamp rows R limit s before items s')
    (hrows : ∀ s, Stamped stamp (rows s)) : items.Pairwise fun x y => stamp y < stamp x := by
  have hpage : ∀ (s : σ) (before : Option γ), (page stamp limit before (rows s)).items.Pairwise
      fun x y => stamp y < stamp x := by
    intro s before
    rw [items_page]
    exact pairwise_latest (stamped_below (hrows s))
  induction hwalk with
  | last h => exact hpage _ _
  | @more s s' s'' before c rest h hs hrest ih =>
    refine List.pairwise_append.mpr ⟨hpage s before, ih, fun x hx y hy => ?_⟩
    obtain ⟨-, -, hlast⟩ := next_page (hrows s) h
    exact (lt_of_mem_walk hrest hy hrows c rfl).trans_le (hlast x hx)

/-- **A walk reads what was there when it began**, if rows only change in what is not their
stamp. -/
theorem mem_walk (hwalk : Walk stamp rows R limit s before items s')
    (hrows : ∀ s, Stamped stamp (rows s)) (hlimit : 0 < limit)
    (hkeep : ∀ s s', R s s' → ∀ x ∈ rows s, ∃ y ∈ rows s', stamp y = stamp x)
    (hx : x ∈ below stamp before (rows s)) : ∃ y ∈ items, stamp y = stamp x := by
  induction hwalk generalizing x with
  | last h =>
    rcases mem_page_or_lt (hrows _) hlimit hx with hmem | ⟨c, hnext, -⟩
    · exact ⟨x, hmem, rfl⟩
    · rw [h] at hnext
      cases hnext
  | @more s s' s'' before c rest h hs hrest ih =>
    rcases mem_page_or_lt (hrows s) hlimit hx with hmem | ⟨c', hnext, hlt⟩
    · exact ⟨x, List.mem_append_left _ hmem, rfl⟩
    · rw [h] at hnext
      cases hnext
      obtain ⟨y, hy, hstamp⟩ := hkeep s s' hs x (mem_below.mp hx).1
      have hbelow : y ∈ below stamp (some c) (rows s') := by
        refine mem_below.mpr ⟨hy, fun c' hc' => ?_⟩
        cases hc'
        rw [hstamp]
        exact hlt
      obtain ⟨z, hz, hz'⟩ := ih hbelow
      exact ⟨z, List.mem_append_right _ hz, hz'.trans hstamp⟩

/-- What is read is there when it is read. -/
theorem exists_mem_of_mem_walk (hwalk : Walk stamp rows R limit s before items s')
    {P : β → Prop} (hP : ∀ s, ∀ x ∈ rows s, P x) : ∀ x ∈ items, P x := by
  induction hwalk with
  | last h => exact fun x hx => hP _ x (mem_of_mem_page hx).1
  | more h hs hrest ih =>
    intro x hx
    rcases List.mem_append.mp hx with hx | hx
    · exact hP _ x (mem_of_mem_page hx).1
    · exact ih x hx

/-- **A walk ends**, if nothing changes: fewer rows are left below each cursor. -/
theorem exists_walk (hrows : ∀ s, Stamped stamp (rows s)) (hlimit : 0 < limit) (hR : R s s)
    (before : Option γ) : ∃ items, Walk stamp rows R limit s before items s := by
  suffices hmeasure : ∀ n before, (below stamp before (rows s)).length ≤ n →
      ∃ items, Walk stamp rows R limit s before items s from hmeasure _ before le_rfl
  intro n
  induction n with
  | zero =>
    intro before hn
    refine ⟨_, .last ?_⟩
    rcases Option.eq_none_or_eq_some (page stamp limit before (rows s)).next with h | ⟨c, h⟩
    · exact h
    · have := (next_page (hrows s) h).1
      omega
  | succ n ih =>
    intro before hn
    rcases Option.eq_none_or_eq_some (page stamp limit before (rows s)).next with h | ⟨c, h⟩
    · exact ⟨_, .last h⟩
    · obtain ⟨-, ⟨y, hy, hstamp⟩, -⟩ := next_page (hrows s) h
      have hyl := (mem_of_mem_page hy).1
      have hybelow : y ∈ below stamp before (rows s) := mem_below.mpr (mem_of_mem_page hy)
      have hc : ∀ c' ∈ before, c < c' := hstamp ▸ (mem_of_mem_page hy).2
      -- the last row of the page is no longer below the cursor
      have hfewer :
          (below stamp (some c) (rows s)).length < (below stamp before (rows s)).length := by
        have hfilter : below stamp (some c) (rows s) =
            (below stamp before (rows s)).filter fun x => decide (stamp x < c) := by
          unfold below
          rw [List.filter_filter]
          refine List.filter_congr fun x _ => ?_
          cases before with
          | none => simp
          | some c' =>
            have hlt := hc c' rfl
            by_cases hx : stamp x < c
            · simp [hx, hx.trans hlt]
            · simp [hx]
        rw [hfilter]
        exact List.length_filter_lt_length_iff_exists.mpr ⟨y, hybelow, by simp [hstamp]⟩
      obtain ⟨items, hitems⟩ := ih (some c) (by omega)
      exact ⟨_, .more h hR hitems⟩

end Paging
