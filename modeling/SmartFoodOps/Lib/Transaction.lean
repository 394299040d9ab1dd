/-
Tables under transactions that read committed data.

Every transaction is named by its owner.  A write stays with its owner until the
owner commits or rolls back; a row that somebody else has written and not yet
committed cannot be written (the statement waits).  Reads see the owner's own
writes and otherwise what is committed.

* `Rows` — a table of rows by key, with `free`, `read`, `write`, `set`, `commit`
  and `rollback`;
* `Rows.update`, `Rows.insert` — the guarded statements, which wait for a row that
  somebody else has written;
* `Rows.change` — what an owner's uncommitted writes would change, by any measure of a row;
* `Log` — a table that is only appended to;
* `Rows.All`, `Claimed` — rows that are inserted once, and a log that has an entry for each;
* the `_other` lemmas say that no statement of one owner touches what another
  owner has written.
-/
import Mathlib.Logic.Function.Basic
import Mathlib.Data.List.Basic
import Mathlib.Data.Int.Notation

set_option linter.unusedSectionVars false

namespace Transaction

variable {κ ν τ α : Type*} [DecidableEq κ] [DecidableEq τ]

/-! ### Tables of rows -/

/-- The committed rows, and the uncommitted write of each key with its owner; a write
of `none` is a deletion. -/
structure Rows (κ ν τ : Type*) where
  committed : κ → Option ν
  pending : κ → Option (τ × Option ν)

namespace Rows

def empty : Rows κ ν τ := ⟨fun _ => none, fun _ => none⟩

/-- Nobody else has an uncommitted write on the row. -/
def free (r : Rows κ ν τ) (t : τ) (k : κ) : Prop :=
  ∀ p ∈ r.pending k, p.1 = t

instance (r : Rows κ ν τ) (t : τ) (k : κ) : Decidable (r.free t k) :=
  inferInstanceAs (Decidable (∀ p ∈ r.pending k, p.1 = t))

/-- The owner has an uncommitted write on the row. -/
def writtenBy (r : Rows κ ν τ) (t : τ) (k : κ) : Bool :=
  (r.pending k).any fun p => p.1 = t

/-- The row as the owner sees it. -/
def read (r : Rows κ ν τ) (t : τ) (k : κ) : Option ν :=
  match r.pending k with
  | some (u, v) => if u = t then v else r.committed k
  | none => r.committed k

/-- An uncommitted write. -/
def write (r : Rows κ ν τ) (t : τ) (k : κ) (v : Option ν) : Rows κ ν τ :=
  { r with pending := Function.update r.pending k (some (t, v)) }

/-- A write that commits at once. -/
def set (r : Rows κ ν τ) (k : κ) (v : Option ν) : Rows κ ν τ :=
  { r with committed := Function.update r.committed k v }

/-- The owner's writes become visible to all. -/
def commit (r : Rows κ ν τ) (t : τ) : Rows κ ν τ where
  committed k := r.read t k
  pending k := if r.writtenBy t k then none else r.pending k

/-- The owner's writes are gone. -/
def rollback (r : Rows κ ν τ) (t : τ) : Rows κ ν τ :=
  { r with pending := fun k => if r.writtenBy t k then none else r.pending k }

/-- The owner has nothing uncommitted. -/
def Idle (r : Rows κ ν τ) (t : τ) : Prop :=
  ∀ k v, r.pending k ≠ some (t, v)

variable {r : Rows κ ν τ} {t u : τ} {k j : κ} {v w : Option ν}

theorem writtenBy_iff : r.writtenBy t k = true ↔ ∃ v, r.pending k = some (t, v) := by
  cases h : r.pending k with
  | none => simp [writtenBy, h]
  | some p =>
    obtain ⟨u, v⟩ := p
    simp [writtenBy, h]

@[simp] theorem write_committed : (r.write t k v).committed = r.committed := rfl

@[simp] theorem rollback_committed : (r.rollback t).committed = r.committed := rfl

@[simp] theorem write_pending_self : (r.write t k v).pending k = some (t, v) :=
  Function.update_self ..

theorem write_pending_of_ne (h : j ≠ k) : (r.write t k v).pending j = r.pending j :=
  Function.update_of_ne h ..

/-- A write on a free row leaves the others' writes. -/
theorem write_pending_other (hfree : r.free u k) (htu : t ≠ u) :
    (r.write u k v).pending j = some (t, w) ↔ r.pending j = some (t, w) := by
  by_cases h : j = k
  · subst h
    rw [write_pending_self]
    constructor
    · intro he
      cases he
      exact absurd rfl htu
    · intro he
      exact absurd (hfree _ he) htu
  · rw [write_pending_of_ne h]

theorem commit_committed_of_pending (h : r.pending k = some (t, v)) :
    (r.commit t).committed k = v := by
  simp [commit, read, h]

theorem commit_committed_of_not_pending (h : ∀ v, r.pending k ≠ some (t, v)) :
    (r.commit t).committed k = r.committed k := by
  cases hp : r.pending k with
  | none => simp [commit, read, hp]
  | some p =>
    obtain ⟨u, v⟩ := p
    have hu : u ≠ t := by
      rintro rfl
      exact h v hp
    simp [commit, read, hp, hu]

/-- What `commit` and `rollback` leave pending is the others'. -/
theorem commit_pending_iff :
    (r.commit u).pending k = some (t, v) ↔ t ≠ u ∧ r.pending k = some (t, v) := by
  cases hp : r.pending k with
  | none => simp [commit, writtenBy, hp]
  | some p =>
    obtain ⟨x, y⟩ := p
    by_cases hx : x = u
    · subst hx
      simp [commit, writtenBy, hp]
      rintro hne rfl
      exact absurd rfl hne
    · simp only [commit, writtenBy, hp, Option.any_some, hx, decide_false, Bool.false_eq_true,
        if_false, Option.some.injEq, Prod.mk.injEq]
      constructor
      · rintro ⟨rfl, rfl⟩
        exact ⟨hx, rfl, rfl⟩
      · exact fun h => h.2

theorem rollback_pending_iff :
    (r.rollback u).pending k = some (t, v) ↔ t ≠ u ∧ r.pending k = some (t, v) :=
  commit_pending_iff

/-- Another owner's commit leaves the rows one has written. -/
theorem commit_committed_other (htu : t ≠ u) (h : r.pending k = some (t, v)) :
    (r.commit u).committed k = r.committed k := by
  refine commit_committed_of_not_pending fun w hw => htu ?_
  rw [h] at hw
  exact congrArg Prod.fst (Option.some.inj hw)

theorem idle_commit : (r.commit t).Idle t :=
  fun _ _ h => (commit_pending_iff.mp h).1 rfl

theorem idle_rollback : (r.rollback t).Idle t :=
  fun _ _ h => (rollback_pending_iff.mp h).1 rfl

/-! ### Guarded statements -/

/-- `UPDATE … WHERE`, with `change` the guard and the new values: whether a row matched.
`none` is a statement that waits: the visible row matches and somebody else has written it. -/
def update (r : Rows κ ν τ) (t : τ) (k : κ) (change : ν → Option ν) :
    Option (Rows κ ν τ × Bool) :=
  match (r.read t k).bind change with
  | none => some (r, false)
  | some v => if r.free t k then some (r.write t k (some v), true) else none

/-- `INSERT`: whether there was no row of that key.  It waits for an uncommitted one. -/
def insert (r : Rows κ ν τ) (t : τ) (k : κ) (v : ν) : Option (Rows κ ν τ × Bool) :=
  if r.free t k then
    match r.read t k with
    | none => some (r.write t k (some v), true)
    | some _ => some (r, false)
  else none

theorem update_cases {r' : Rows κ ν τ} {change : ν → Option ν} {b : Bool}
    (h : r.update t k change = some (r', b)) :
    (b = false ∧ r' = r ∧ (r.read t k).bind change = none) ∨
      (b = true ∧ r.free t k ∧ ∃ v v', r.read t k = some v ∧ change v = some v' ∧
        r' = r.write t k (some v')) := by
  unfold update at h
  split at h
  · next hnone =>
    cases h
    exact .inl ⟨rfl, rfl, hnone⟩
  · next v' hv' =>
    split at h
    · next hfree =>
      cases h
      obtain ⟨v, hv, hc⟩ := Option.bind_eq_some_iff.mp hv'
      exact .inr ⟨rfl, hfree, v, v', hv, hc, rfl⟩
    · cases h

theorem insert_cases {r' : Rows κ ν τ} {x : ν} {b : Bool}
    (h : r.insert t k x = some (r', b)) :
    (b = false ∧ r' = r ∧ ∃ y, r.read t k = some y) ∨
      (b = true ∧ r.free t k ∧ r.read t k = none ∧ r' = r.write t k (some x)) := by
  unfold insert at h
  split at h
  · next hfree =>
    split at h
    · next hnone =>
      cases h
      exact .inr ⟨rfl, hfree, hnone, rfl⟩
    · next y hy =>
      cases h
      exact .inl ⟨rfl, rfl, y, hy⟩
  · cases h

/-! ### What an owner sees -/

theorem read_of_pending (h : r.pending k = some (t, v)) : r.read t k = v := by
  simp [read, h]

theorem read_of_not_pending (h : ∀ v, r.pending k ≠ some (t, v)) :
    r.read t k = r.committed k :=
  commit_committed_of_not_pending h

theorem read_write_self : (r.write t k v).read t k = v :=
  read_of_pending write_pending_self

theorem read_write_of_ne (h : j ≠ k) : (r.write t k v).read u j = r.read u j := by
  simp only [read, write_pending_of_ne h, write_committed]

/-- Nobody else sees an uncommitted write. -/
theorem read_write_other (hfree : r.free t k) (htu : u ≠ t) :
    (r.write t k v).read u j = r.read u j := by
  by_cases h : j = k
  · subst h
    rw [read_of_not_pending, read_of_not_pending]
    · rfl
    · intro w hw
      exact htu (hfree _ hw)
    · intro w hw
      rw [write_pending_self] at hw
      cases hw
      exact htu rfl
  · exact read_write_of_ne h

theorem read_commit_self : (r.commit t).read t k = r.read t k := by
  rw [read_of_not_pending fun v => idle_commit k v]
  rfl

theorem read_rollback_other (htu : u ≠ t) : (r.rollback t).read u k = r.read u k := by
  by_cases h : ∃ v, r.pending k = some (u, v)
  · obtain ⟨v, hv⟩ := h
    rw [read_of_pending hv, read_of_pending (rollback_pending_iff.mpr ⟨htu, hv⟩)]
  · have hno : ∀ v, r.pending k ≠ some (u, v) := fun v hv => h ⟨v, hv⟩
    rw [read_of_not_pending hno,
      read_of_not_pending fun v hv => hno v (rollback_pending_iff.mp hv).2]
    rfl

/-- After another owner's commit one sees one's own write, or the new row. -/
theorem read_commit_other (htu : u ≠ t) :
    (r.commit t).read u k = r.read u k ∧ (∃ v, r.pending k = some (u, v)) ∨
      (r.commit t).read u k = r.read t k ∧ ∀ v, r.pending k ≠ some (u, v) := by
  by_cases h : ∃ v, r.pending k = some (u, v)
  · obtain ⟨v, hv⟩ := h
    refine .inl ⟨?_, v, hv⟩
    rw [read_of_pending hv, read_of_pending (commit_pending_iff.mpr ⟨htu, hv⟩)]
  · have hno : ∀ v, r.pending k ≠ some (u, v) := fun v hv => h ⟨v, hv⟩
    refine .inr ⟨?_, hno⟩
    rw [read_of_not_pending fun v hv => hno v (commit_pending_iff.mp hv).2]
    rfl

/-- What the owner's uncommitted writes would change on a row, by the measure `w`. -/
def change (w : Option ν → ℤ) (r : Rows κ ν τ) (t : τ) (k : κ) : ℤ :=
  w (r.read t k) - w (r.committed k)

variable {m : Option ν → ℤ}

theorem change_of_not_pending (h : ∀ v, r.pending k ≠ some (t, v)) : r.change m t k = 0 := by
  rw [change, read_of_not_pending h, Int.sub_self]

theorem change_write_self :
    (r.write t k v).change m t k = r.change m t k + (m v - m (r.read t k)) := by
  rw [change, change, read_write_self, write_committed]
  omega

theorem change_write_of_ne (h : j ≠ k) : (r.write t k v).change m u j = r.change m u j := by
  rw [change, change, read_write_of_ne h, write_committed]

theorem change_write_other (hfree : r.free t k) (htu : u ≠ t) :
    (r.write t k v).change m u j = r.change m u j := by
  rw [change, change, read_write_other hfree htu, write_committed]

theorem change_commit_self : (r.commit t).change m t k = 0 :=
  change_of_not_pending fun v => idle_commit k v

theorem change_rollback_self : (r.rollback t).change m t k = 0 :=
  change_of_not_pending fun v => idle_rollback k v

/-- No commit of another owner changes what one's own writes would change. -/
theorem change_commit_other (htu : u ≠ t) : (r.commit t).change m u k = r.change m u k := by
  rcases read_commit_other htu (r := r) (k := k) with ⟨hr, v, hv⟩ | ⟨hr, hno⟩
  · rw [change, change, hr, commit_committed_other htu hv]
  · rw [change_of_not_pending hno,
      change_of_not_pending fun v hv => hno v (commit_pending_iff.mp hv).2]

theorem change_rollback_other (htu : u ≠ t) : (r.rollback t).change m u k = r.change m u k := by
  rw [change, change, read_rollback_other htu, rollback_committed]

/-- A commit changes a row by what the owner has written. -/
theorem commit_committed_measure :
    m ((r.commit t).committed k) = m (r.committed k) + r.change m t k := by
  have hc : (r.commit t).committed k = r.read t k := rfl
  rw [hc, change]
  omega

end Rows

/-! ### Tables that only grow -/

/-- The committed entries, and each owner's uncommitted ones. -/
structure Log (α τ : Type*) where
  committed : List α
  pending : τ → List α

namespace Log

def empty : Log α τ := ⟨[], fun _ => []⟩

def append (l : Log α τ) (t : τ) (entries : List α) : Log α τ :=
  { l with pending := Function.update l.pending t (l.pending t ++ entries) }

def commit (l : Log α τ) (t : τ) : Log α τ where
  committed := l.committed ++ l.pending t
  pending := Function.update l.pending t []

def rollback (l : Log α τ) (t : τ) : Log α τ :=
  { l with pending := Function.update l.pending t [] }

variable {l : Log α τ} {t u : τ} {entries : List α}

@[simp] theorem commit_committed : (l.commit t).committed = l.committed ++ l.pending t := rfl

@[simp] theorem append_pending_self : (l.append t entries).pending t = l.pending t ++ entries :=
  Function.update_self ..

@[simp] theorem commit_pending_self : (l.commit t).pending t = [] := Function.update_self ..

@[simp] theorem rollback_pending_self : (l.rollback t).pending t = [] := Function.update_self ..

theorem append_pending_other (h : t ≠ u) : (l.append u entries).pending t = l.pending t :=
  Function.update_of_ne h ..

theorem commit_pending_other (h : t ≠ u) : (l.commit u).pending t = l.pending t :=
  Function.update_of_ne h ..

theorem rollback_pending_other (h : t ≠ u) : (l.rollback u).pending t = l.pending t :=
  Function.update_of_ne h ..

end Log

/-! ### Rows that are inserted once -/

section

variable {r r' : Rows κ ν τ} {l : Log α τ} {t u : τ} {k j : κ} {v : ν} {won : Bool}

namespace Rows

/-- What the owner has written. -/
def own (r : Rows κ ν τ) (t : τ) (k : κ) : Option ν := if r.writtenBy t k then r.read t k else none

/-- What is committed has the property, and so has what is written; nothing is deleted. -/
structure All (P : κ → ν → Prop) (r : Rows κ ν τ) : Prop where
  committed : ∀ k v, r.committed k = some v → P k v
  pending : ∀ k t v, r.pending k = some (t, v) → ∃ x, v = some x ∧ P k x

variable {P : κ → ν → Prop}

theorem own_of_pending {v : Option ν} (h : r.pending k = some (t, v)) : r.own t k = v := by
  rw [own, if_pos (writtenBy_iff.mpr ⟨v, h⟩), read_of_pending h]

theorem own_of_not_pending (h : ∀ v, r.pending k ≠ some (t, v)) : r.own t k = none := by
  rw [own, if_neg]
  intro hw
  obtain ⟨v, hv⟩ := writtenBy_iff.mp hw
  exact h v hv

theorem own_congr (h : ∀ v, r'.pending k = some (t, v) ↔ r.pending k = some (t, v)) :
    r'.own t k = r.own t k := by
  by_cases hp : ∃ v, r.pending k = some (t, v)
  · obtain ⟨v, hv⟩ := hp
    rw [own_of_pending hv, own_of_pending ((h v).mpr hv)]
  · have hno : ∀ v, r.pending k ≠ some (t, v) := fun v hv => hp ⟨v, hv⟩
    rw [own_of_not_pending hno, own_of_not_pending fun v hv => hno v ((h v).mp hv)]

theorem All.empty : (empty : Rows κ ν τ).All P := ⟨by rintro k v ⟨⟩, by rintro k t v ⟨⟩⟩

theorem All.insert (h : r.All P) (hv : P k v) (hi : r.insert t k v = some (r', won)) :
    r'.All P := by
  rcases insert_cases hi with ⟨-, rfl, -⟩ | ⟨-, -, -, rfl⟩
  · exact h
  · refine ⟨h.committed, ?_⟩
    intro j u w hw
    by_cases hj : j = k
    · subst hj
      rw [write_pending_self] at hw
      cases hw
      exact ⟨v, rfl, hv⟩
    · rw [write_pending_of_ne hj] at hw
      exact h.pending j u w hw

theorem All.commit (h : r.All P) : (r.commit t).All P := by
  constructor
  · intro j w hw
    by_cases hp : ∃ v, r.pending j = some (t, v)
    · obtain ⟨v, hv⟩ := hp
      rw [commit_committed_of_pending hv] at hw
      obtain ⟨x, hx, hPx⟩ := h.pending j t v hv
      obtain rfl := Option.some.inj (hx.symm.trans hw)
      exact hPx
    · rw [commit_committed_of_not_pending fun v hv => hp ⟨v, hv⟩] at hw
      exact h.committed j w hw
  · intro j u w hw
    exact h.pending j u w (commit_pending_iff.mp hw).2

theorem All.rollback (h : r.All P) : (r.rollback t).All P :=
  ⟨h.committed, fun j u w hw => h.pending j u w (rollback_pending_iff.mp hw).2⟩

/-- What somebody sees is not taken away by an insertion, -/
theorem isSome_read_insert (hi : r.insert t k v = some (r', won)) (h : (r.read u j).isSome) :
    (r'.read u j).isSome := by
  rcases insert_cases hi with ⟨-, rfl, -⟩ | ⟨-, hfree, hnone, rfl⟩
  · exact h
  · by_cases hut : u = t
    · subst hut
      by_cases hj : j = k
      · subst hj
        rw [hnone] at h
        cases h
      · rwa [read_write_of_ne hj]
    · rwa [read_write_other hfree hut]

/-- nor by a commit, -/
theorem isSome_read_commit (hall : r.All P) (h : (r.read u j).isSome) :
    ((r.commit t).read u j).isSome := by
  by_cases hut : u = t
  · subst hut
    rwa [read_commit_self]
  · rcases read_commit_other hut (r := r) (k := j) with ⟨hr, -⟩ | ⟨hr, hno⟩
    · rwa [hr]
    · rw [hr]
      by_cases hp : ∃ v, r.pending j = some (t, v)
      · obtain ⟨v, hv⟩ := hp
        obtain ⟨x, rfl, -⟩ := hall.pending j t v hv
        rw [read_of_pending hv]
        rfl
      · rw [read_of_not_pending fun v hv => hp ⟨v, hv⟩]
        rwa [read_of_not_pending hno] at h

/-- and one has won, or finds what is there. -/
theorem isSome_read_insert_self (hi : r.insert t k v = some (r', won)) :
    (r'.read t k).isSome := by
  rcases insert_cases hi with ⟨-, rfl, y, hy⟩ | ⟨-, -, -, rfl⟩
  · rw [hy]
    rfl
  · rw [read_write_self]
    rfl

end Rows

open Rows

/-- The log has an entry for each row, appended by the insertion that won. -/
structure Claimed (about : α → κ) (entry : ν → α) (r : Rows κ ν τ) (l : Log α τ) : Prop where
  committed : ∀ k, (l.committed.filter fun e => about e = k) = (r.committed k).toList.map entry
  pending : ∀ t k, ((l.pending t).filter fun e => about e = k) = (r.own t k).toList.map entry
  fresh : ∀ k t v, r.pending k = some (t, v) → r.committed k = none

variable {about : α → κ} {entry : ν → α}

theorem Claimed.empty : Claimed about entry (Rows.empty : Rows κ ν τ) (Log.empty : Log α τ) :=
  ⟨fun _ => rfl, fun _ _ => rfl, by rintro k t v ⟨⟩⟩

theorem Claimed.insert (h : Claimed about entry r l) (hk : about (entry v) = k)
    (hi : r.insert t k v = some (r', won)) :
    Claimed about entry r' (if won then l.append t [entry v] else l) := by
  rcases insert_cases hi with ⟨rfl, rfl, -⟩ | ⟨rfl, hfree, hnone, rfl⟩
  · exact h
  · rw [if_pos rfl]
    have hno : ∀ w, r.pending k ≠ some (t, w) ∨ w = none := by
      intro w
      by_cases hw : r.pending k = some (t, w)
      · rw [read_of_pending hw] at hnone
        exact .inr hnone
      · exact .inl hw
    have hown : r.own t k = none := by
      by_cases hp : ∃ w, r.pending k = some (t, w)
      · obtain ⟨w, hw⟩ := hp
        rw [own_of_pending hw]
        exact (hno w).resolve_left fun hne => hne hw
      · exact own_of_not_pending fun w hw => hp ⟨w, hw⟩
    have hcommitted : r.committed k = none := by
      by_cases hp : ∃ w, r.pending k = some (t, w)
      · obtain ⟨w, hw⟩ := hp
        exact h.fresh k t w hw
      · rwa [read_of_not_pending fun w hw => hp ⟨w, hw⟩] at hnone
    refine ⟨h.committed, ?_, ?_⟩
    · intro u j
      by_cases hut : u = t
      · subst hut
        rw [Log.append_pending_self, List.filter_append, h.pending u j]
        by_cases hj : j = k
        · subst hj
          rw [own_of_pending write_pending_self, hown, List.filter_cons, if_pos (by simpa using hk)]
          rfl
        · have hown : (r.write u k (some v)).own u j = r.own u j :=
            own_congr fun w => by rw [write_pending_of_ne hj]
          rw [List.filter_cons, if_neg (by simpa [hk] using Ne.symm hj), List.filter_nil,
            List.append_nil, hown]
      · rw [Log.append_pending_other hut, h.pending u j,
          own_congr fun w => write_pending_other hfree hut]
    · intro j u w hw
      by_cases hj : j = k
      · subst hj
        exact hcommitted
      · rw [write_pending_of_ne hj] at hw
        exact h.fresh j u w hw

theorem Claimed.commit (h : Claimed about entry r l) :
    Claimed about entry (r.commit t) (l.commit t) := by
  refine ⟨?_, ?_, ?_⟩
  · intro k
    rw [Log.commit_committed, List.filter_append, h.committed, h.pending]
    by_cases hp : ∃ v, r.pending k = some (t, v)
    · obtain ⟨v, hv⟩ := hp
      rw [commit_committed_of_pending hv, own_of_pending hv, h.fresh k t v hv]
      rfl
    · have hno : ∀ v, r.pending k ≠ some (t, v) := fun v hv => hp ⟨v, hv⟩
      rw [commit_committed_of_not_pending hno, own_of_not_pending hno]
      exact List.append_nil _
  · intro u k
    by_cases hut : u = t
    · subst hut
      rw [Log.commit_pending_self, own_of_not_pending fun v => idle_commit k v]
      rfl
    · rw [Log.commit_pending_other hut, h.pending,
        own_congr fun v => commit_pending_iff.trans (and_iff_right hut)]
  · intro k u v hv
    obtain ⟨hut, hv⟩ := commit_pending_iff.mp hv
    rw [commit_committed_other hut hv]
    exact h.fresh k u v hv

theorem Claimed.rollback (h : Claimed about entry r l) :
    Claimed about entry (r.rollback t) (l.rollback t) := by
  refine ⟨h.committed, ?_, ?_⟩
  · intro u k
    by_cases hut : u = t
    · subst hut
      rw [Log.rollback_pending_self, own_of_not_pending fun v => idle_rollback k v]
      rfl
    · rw [Log.rollback_pending_other hut, h.pending,
        own_congr fun v => rollback_pending_iff.trans (and_iff_right hut)]
  · intro k u v hv
    exact h.fresh k u v (rollback_pending_iff.mp hv).2

end

end Transaction
