/-
The idempotency store: the statements of `IdempotencyStore`, one by one.

The table is keyed by `(scope, idem_key)`; everything here is about the row of
one key, `none` when the key has no row.  `reserve` is three statements — the
INSERT that is the lock, the SELECT after a conflict with the verdict the code
draws from it (`judge`), and the guarded UPDATE of `_take_over` — and the
other operations are one statement each.  The response body is whatever JSON
the service stores, so it is a type parameter.
-/
import Mathlib.Order.Basic

namespace Idempotency

/-- `ck_idempotency_keys_status`. -/
inductive KeyStatus
  | inProgress
  | complete
  deriving DecidableEq, Repr

/-- A row of the table, without its key. -/
structure Row (β : Type*) where
  bodyHash : String
  status : KeyStatus
  responseStatus : Option ℕ
  responseBody : Option β
  createdAt : ℕ
  deriving DecidableEq, Repr

/-- What a caller of `reserve` is told. -/
inductive ReserveOutcome (β : Type*)
  | reserved
  | replay (responseStatus : Option ℕ) (responseBody : Option β)
  | inProgress
  | bodyMismatch
  deriving DecidableEq, Repr

/-- The two windows of the store, in the clock's unit. -/
structure Ttl where
  replay : ℕ := 86400
  inProgress : ℕ := 300
  deriving DecidableEq, Repr

variable {β : Type*}

/-! ### The statements of `reserve` -/

/-- The row the INSERT writes. -/
def freshRow (requestHash : String) (now : ℕ) : Row β :=
  { bodyHash := requestHash, status := .inProgress, responseStatus := none,
    responseBody := none, createdAt := now }

/-- `INSERT`: `none` is the IntegrityError of an existing key. -/
def insertRow (row : Option (Row β)) (requestHash : String) (now : ℕ) : Option (Row β) :=
  match row with
  | none => some (freshRow requestHash now)
  | some _ => none

/-- What `reserve` does after its SELECT: answer, or try to take the row over. -/
inductive Verdict (β : Type*)
  | answer (outcome : ReserveOutcome β)
  | takeOver (expected : KeyStatus)
  deriving DecidableEq, Repr

/-- The branches of `reserve` on the row it read. -/
def judge (ttl : Ttl) (row : Option (Row β)) (requestHash : String) (now : ℕ) : Verdict β :=
  match row with
  | none => .answer .inProgress
  | some row =>
    if row.bodyHash ≠ requestHash then .answer .bodyMismatch
    else match row.status with
      | .complete =>
        if row.createdAt + ttl.replay < now then .takeOver .complete
        else .answer (.replay row.responseStatus row.responseBody)
      | .inProgress =>
        if row.createdAt + ttl.inProgress < now then .takeOver .inProgress
        else .answer .inProgress

/-- `_take_over`: the UPDATE guarded by `status = :expected`, with its row count
as the answer. -/
def takeOver (row : Option (Row β)) (expected : KeyStatus) (requestHash : String) (now : ℕ) :
    Option (Row β) × ReserveOutcome β :=
  match row with
  | none => (none, .inProgress)
  | some r =>
    if r.status = expected then (some (freshRow requestHash now), .reserved)
    else (some r, .inProgress)

/-! ### The other operations -/

/-- `complete`: the UPDATE by key, on the caller's session. -/
def complete (row : Option (Row β)) (responseStatus : ℕ) (responseBody : β) : Option (Row β) :=
  row.map fun r =>
    { r with status := .complete, responseStatus := some responseStatus,
             responseBody := some responseBody }

/-- `release`: the DELETE by key. -/
def release (_row : Option (Row β)) : Option (Row β) := none

/-- `purge` reaches the row: COMPLETE past the replay window, or IN_PROGRESS past
the orphan window. -/
def purgeable (ttl : Ttl) (orphanTtl : ℕ) (now : ℕ) (r : Row β) : Bool :=
  match r.status with
  | .complete => r.createdAt + ttl.replay < now
  | .inProgress => r.createdAt + orphanTtl < now

/-! ### What each statement can do -/

@[simp] theorem freshRow_status (h : String) (now : ℕ) :
    (freshRow h now : Row β).status = .inProgress := rfl

/-- A verdict to take over names the status the row was read in. -/
theorem judge_takeOver {ttl : Ttl} {row : Option (Row β)} {hash : String} {now : ℕ}
    {expected : KeyStatus} (h : judge ttl row hash now = .takeOver expected) :
    ∃ r, row = some r ∧ r.bodyHash = hash ∧ r.status = expected := by
  cases row with
  | none => simp [judge] at h
  | some r =>
    simp only [judge] at h
    split at h
    · cases h
    · next hh =>
      refine ⟨r, rfl, not_not.mp hh, ?_⟩
      cases hs : r.status <;> simp only [hs] at h <;> split at h <;> cases h <;> rfl

/-- A verdict on a row of the same body is never a mismatch and never a grant. -/
theorem judge_answer {ttl : Ttl} {r : Row β} {hash : String} {now : ℕ}
    {outcome : ReserveOutcome β} (hr : r.bodyHash = hash)
    (h : judge ttl (some r) hash now = .answer outcome) :
    outcome = .inProgress ∨ ∃ status body, outcome = .replay status body := by
  simp only [judge, hr, ne_eq, not_true_eq_false, if_false] at h
  cases hs : r.status <;> simp only [hs] at h <;> split at h <;> cases h
  · exact .inl rfl
  · exact .inr ⟨_, _, rfl⟩

/-- What is replayed is what the row stores. -/
theorem judge_replay {ttl : Ttl} {row : Option (Row β)} {hash : String} {now : ℕ}
    {status : Option ℕ} {body : Option β}
    (h : judge ttl row hash now = .answer (.replay status body)) :
    ∃ r, row = some r ∧ r.responseStatus = status := by
  cases row with
  | none => simp [judge] at h
  | some r =>
    refine ⟨r, rfl, ?_⟩
    simp only [judge] at h
    split at h
    · simp at h
    · cases hs : r.status <;> simp only [hs] at h <;> split at h <;> simp at h
      exact h.1

theorem takeOver_granted {r : Row β} {hash : String} {now : ℕ} :
    takeOver (some r) r.status hash now = (some (freshRow hash now), .reserved) := by
  simp [takeOver]

theorem takeOver_refused {r : Row β} {expected : KeyStatus} {hash : String} {now : ℕ}
    (h : r.status ≠ expected) :
    takeOver (some r) expected hash now = (some r, .inProgress) := by
  simp [takeOver, h]

end Idempotency
