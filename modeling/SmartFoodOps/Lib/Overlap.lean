/-
What the others commit while a call is under way.

A machine whose labels are the statements of parties runs beside a record: of every party how
many statements its call has executed, and what the others have committed in the meantime, each
entry with the number of statements that the party had executed by then.

* `Watch` — how calls, statements and commits show in the labels;
* `Watched`, `Watch.watched` — the machine with its record; `run_of_watched` and
  `exists_watched_run` say that the record neither adds a run nor stops one;
* `Watched.Since` — committed by another party since a statement of this one;
* `begins_of_watched`, `runs_of_watched`, `waits_of_watched` — what one step does to the record of
  one party;
* `After` — what holds of a program once it has executed so many statements, whatever they saw.
-/
import SmartFoodOps.Lib.Machine
import SmartFoodOps.Lib.Program
import Mathlib.Logic.Basic

namespace Machine

/-- How a party begins a call and executes its next statement, and what a label commits. -/
structure Watch (σ ι κ α : Type*) where
  begins : σ → ι → Option κ
  runs : ι → Option κ
  commits : σ → ι → List α

/-- A state, and the record beside it. -/
structure Watched (σ κ α : Type*) where
  state : σ
  /-- The statements of the party's call so far. -/
  ran : κ → ℕ
  /-- What others have committed, with the party's count at that moment. -/
  others : κ → List (ℕ × α)

variable {σ ι κ α : Type*}

namespace Watched

def start (s : σ) : Watched σ κ α := ⟨s, fun _ => 0, fun _ => []⟩

/-- Another party has committed it since the party's statement number `n`. -/
def Since (w : Watched σ κ α) (k : κ) (n : ℕ) (a : α) : Prop :=
  ∃ x ∈ w.others k, n ≤ x.1 ∧ x.2 = a

instance [DecidableEq α] (w : Watched σ κ α) (k : κ) (n : ℕ) (a : α) :
    Decidable (w.Since k n a) := inferInstanceAs (Decidable (∃ x ∈ w.others k, n ≤ x.1 ∧ x.2 = a))

/-- What has been committed is in the record. -/
instance {w : Watched σ κ α} {k : κ} {n : ℕ} {P : α → Prop} [DecidablePred P] :
    Decidable (∃ a, w.Since k n a ∧ P a) :=
  decidable_of_iff (∃ x ∈ w.others k, n ≤ x.1 ∧ P x.2)
    ⟨fun ⟨x, hx, hn, hp⟩ => ⟨x.2, ⟨x, hx, hn, rfl⟩, hp⟩,
      fun ⟨_, ⟨x, hx, hn, he⟩, hp⟩ => ⟨x, hx, hn, he ▸ hp⟩⟩

end Watched

namespace Watch

variable [DecidableEq κ] (W : Watch σ ι κ α) (step : σ → ι → Option σ)

def ranAfter (w : Watched σ κ α) (i : ι) (k : κ) : ℕ :=
  if W.begins w.state i = some k then 0
  else if W.runs i = some k then w.ran k + 1
  else w.ran k

def othersAfter (w : Watched σ κ α) (i : ι) (k : κ) : List (ℕ × α) :=
  if W.begins w.state i = some k then []
  else if W.runs i = some k then w.others k
  else w.others k ++ (W.commits w.state i).map fun a => (w.ran k, a)

/-- One step, and what it adds to the record. -/
def watched (w : Watched σ κ α) (i : ι) : Option (Watched σ κ α) :=
  (step w.state i).map fun t => ⟨t, W.ranAfter w i, W.othersAfter w i⟩

variable {W step} {w u : Watched σ κ α} {i : ι} {k : κ}

theorem step_of_watched (h : W.watched step w i = some u) : step w.state i = some u.state := by
  obtain ⟨t, ht, rfl⟩ := Option.map_eq_some_iff.mp h
  exact ht

/-! ### One step of the record -/

/-- A call that begins has executed nothing, and nothing has happened since. -/
theorem begins_of_watched (h : W.watched step w i = some u) (hb : W.begins w.state i = some k) :
    u.ran k = 0 ∧ ∀ n a, ¬ u.Since k n a := by
  obtain ⟨t, -, rfl⟩ := Option.map_eq_some_iff.mp h
  refine ⟨if_pos hb, fun n a => ?_⟩
  rintro ⟨x, hx, -⟩
  rw [show (Watched.mk t (W.ranAfter w i) (W.othersAfter w i)).others k = [] from if_pos hb] at hx
  cases hx

theorem runs_of_watched (h : W.watched step w i = some u) (hb : W.begins w.state i ≠ some k)
    (hr : W.runs i = some k) :
    u.ran k = w.ran k + 1 ∧ ∀ n a, u.Since k n a ↔ w.Since k n a := by
  obtain ⟨t, -, rfl⟩ := Option.map_eq_some_iff.mp h
  refine ⟨(if_neg hb).trans (if_pos hr), fun n a => ?_⟩
  unfold Watched.Since
  rw [show (Watched.mk t (W.ranAfter w i) (W.othersAfter w i)).others k = w.others k from
    (if_neg hb).trans (if_pos hr)]

/-- While another party moves, its commits are added. -/
theorem waits_of_watched (h : W.watched step w i = some u) (hb : W.begins w.state i ≠ some k)
    (hr : W.runs i ≠ some k) : u.ran k = w.ran k ∧
      ∀ n a, u.Since k n a ↔ w.Since k n a ∨ n ≤ w.ran k ∧ a ∈ W.commits w.state i := by
  obtain ⟨t, -, rfl⟩ := Option.map_eq_some_iff.mp h
  refine ⟨(if_neg hb).trans (if_neg hr), fun n a => ?_⟩
  have hothers : (Watched.mk t (W.ranAfter w i) (W.othersAfter w i)).others k =
      w.others k ++ (W.commits w.state i).map fun a => (w.ran k, a) :=
    (if_neg hb).trans (if_neg hr)
  unfold Watched.Since
  rw [hothers]
  constructor
  · rintro ⟨x, hx, hn, rfl⟩
    rcases List.mem_append.mp hx with hx | hx
    · exact .inl ⟨x, hx, hn, rfl⟩
    · obtain ⟨a, ha, rfl⟩ := List.mem_map.mp hx
      exact .inr ⟨hn, ha⟩
  · rintro (⟨x, hx, hn, rfl⟩ | ⟨hn, ha⟩)
    · exact ⟨x, List.mem_append_left _ hx, hn, rfl⟩
    · exact ⟨(w.ran k, a), List.mem_append_right _ (List.mem_map.mpr ⟨a, ha, rfl⟩), hn, rfl⟩

/-! ### The record restrains nothing -/

variable {ok : Watched σ κ α → ι → Prop} {is : List ι}

theorem run_of_watched (h : Run (W.watched step) ok w is u) : Run step Always w.state is u.state := by
  induction h with
  | nil => exact .nil
  | snoc _ _ hs ih => exact ih.snoc trivial (step_of_watched hs)

theorem exists_watched_run {t : σ} (h : Run step Always w.state is t) :
    ∃ u, Run (W.watched step) Always w is u ∧ u.state = t := by
  induction h with
  | nil => exact ⟨w, .nil, rfl⟩
  | @snoc is t t' i _ _ hs ih =>
    obtain ⟨u, hu, rfl⟩ := ih
    refine ⟨⟨t', W.ranAfter u i, W.othersAfter u i⟩, hu.snoc trivial ?_, rfl⟩
    rw [watched, hs]
    rfl

end Watch

end Machine

namespace Program

variable {δ ω ε π α : Type} (apply : ω → δ → δ) (Drawn : π → ℕ → Prop)
  (E : α → Prop) (P : Prog δ ω ε π α → List ω → δ → Prop)

/-- Whatever its first `n` statements see, the program goes on as a `P` on the database that the
last of them saw.  If it is through before that, its result is an `E`. -/
def After : ℕ → Prog δ ω ε π α → List ω → δ → Prop
  | 0, p, ws, db => P p ws db
  | _ + 1, .ret a, _, _ => E a
  | _ + 1, .fail _, _, _ => True
  | n + 1, @Prog.stmt _ _ _ _ _ _ _ s k, ws, _ => ∀ db b w,
      s (applyAll apply ws db) = some (b, w) → After n (k b) (ws ++ w) db
  | n + 1, .draw purpose k, ws, _ => ∀ db u, Drawn purpose u → After n (k u) ws db

variable {apply Drawn E P} {p p' : Prog δ ω ε π α} {ws w : List ω} {db db' : δ} {n : ℕ}

/-- What is not read yet may change. -/
theorem After.moved (h : After apply Drawn E P (n + 1) p ws db) :
    After apply Drawn E P (n + 1) p ws db' := by
  cases p <;> exact h

theorem After.mono {P' : Prog δ ω ε π α → List ω → δ → Prop}
    (h : After apply Drawn E P n p ws db) (hP : ∀ p ws db, P p ws db → P' p ws db) :
    After apply Drawn E P' n p ws db := by
  induction n generalizing p ws db with
  | zero => exact hP p ws db h
  | succ n ih =>
    cases p with
    | ret a | fail e => exact h
    | stmt s k => exact fun db b w hs => ih (h db b w hs)
    | draw purpose k => exact fun db u hu => ih (h db u hu)

theorem After.advance [DecidableEq ω] [∀ p u, Decidable (Drawn p u)] {facts : List (δ → Bool)} {u : ℕ}
    (h : After apply Drawn E P (n + 1) p ws db')
    (ha : p.advance apply Drawn db ws u = some (p', w, facts)) :
    After apply Drawn E P n p' (ws ++ w) db := by
  cases p with
  | ret a | fail e => cases ha
  | stmt s k =>
    obtain ⟨⟨b, w⟩, hs, ha⟩ := Option.map_eq_some_iff.mp ha
    cases ha
    exact h db b w hs
  | draw purpose k =>
    simp only [Prog.advance] at ha
    split at ha
    · next hu =>
      cases ha
      rw [List.append_nil]
      exact h db u hu
    · cases ha

/-! ### Before and after statement `m` of a program that has executed `r` -/

section

variable {m r : ℕ}

theorem After.step [DecidableEq ω] [∀ p u, Decidable (Drawn p u)] {facts : List (δ → Bool)} {u : ℕ}
    (h : After apply Drawn E P (m - r) p ws db)
    (ha : p.advance apply Drawn db ws u = some (p', w, facts))
    (hP : P p ws db → P p' (ws ++ w) db) : After apply Drawn E P (m - (r + 1)) p' (ws ++ w) db := by
  rw [Nat.sub_succ]
  cases hk : m - r with
  | zero =>
    rw [hk] at h
    exact hP h
  | succ k =>
    rw [hk] at h
    exact h.advance ha

/-- While the program waits, the database changes. -/
theorem After.waits {P' : Prog δ ω ε π α → List ω → δ → Prop}
    (h : After apply Drawn E P (m - r) p ws db) (hmono : ∀ p ws db, P p ws db → P' p ws db)
    (hP : m ≤ r → P p ws db → P' p ws db') : After apply Drawn E P' (m - r) p ws db' := by
  cases hk : m - r with
  | zero =>
    rw [hk] at h
    exact hP (Nat.le_of_sub_eq_zero hk) h
  | succ k =>
    rw [hk] at h
    exact h.moved.mono hmono

theorem After.result {a : α} (h : After apply Drawn E P (m - r) (.ret a) ws db) (ha : ¬ E a) :
    m ≤ r ∧ P (.ret a) ws db := by
  cases hk : m - r with
  | zero =>
    rw [hk] at h
    exact ⟨Nat.le_of_sub_eq_zero hk, h⟩
  | succ k =>
    rw [hk] at h
    exact absurd h ha

end

end Program
