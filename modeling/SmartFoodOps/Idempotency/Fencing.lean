/-
Executions that hold the same key, one after the other.

An execution reserves its key, does its work and ends with `complete` or `release`,
which find the row by its key: nothing in the row says whose reservation it is.  An
execution that is slower than the take-over window therefore ends a reservation that
is no longer its own.

* `Execution`, `System`, `step` — any number of executions of one key, one statement
  at a time; `lost` remembers, for the statements below, who was taken over;
* `Fenced` — the condition: an execution that was taken over finds no row when it
  ends, and nobody is granted the key between the SELECT and the UPDATE of a take-over;
* `fences_of_run` — under it there is one holder at a time, and a stored response is
  the latest holder's;
* `not_fenced` — without it, three executions are enough for two holders, and a stored
  response is one that the holder did not write.
-/
import SmartFoodOps.Idempotency.TakeOver

open Machine

namespace Idempotency

namespace Fencing

variable {β : Type*}

/-! ### Executions -/

inductive Execution (β : Type*)
  | idle
  /-- Between two statements of `reserve`. -/
  | reserving (hash : String) (pc : Pc β)
  /-- Granted at `since`; `lost` if another execution has taken the row over. -/
  | holding (since : ℕ) (lost : Bool)
  /-- Answered Replay, InProgress or BodyMismatch. -/
  | refused
  | completed (responseStatus : ℕ) (responseBody : β)
  | released
  deriving DecidableEq

/-- The execution after its reservation was taken over. -/
def Execution.lose : Execution β → Execution β
  | holding since _ => holding since true
  | e => e

structure System (β : Type*) where
  clock : ℕ
  row : Option (Row β)
  execs : ℕ → Execution β
  /-- The execution that was granted the key last. -/
  latest : Option ℕ

def System.empty : System β := ⟨0, none, fun _ => .idle, none⟩

inductive Event (β : Type*)
  | start (pid : ℕ) (hash : String)
  | reserve (pid : ℕ) (now : ℕ)
  | complete (pid : ℕ) (responseStatus : ℕ) (responseBody : β)
  | release (pid : ℕ)
  deriving DecidableEq

/-- The executions after a grant to `pid`: whoever the row belonged to has lost it. -/
def granted (s : System β) (pid now : ℕ) : ℕ → Execution β :=
  let execs := match s.row, s.latest with
    | some _, some e => Function.update s.execs e (s.execs e).lose
    | _, _ => s.execs
  Function.update execs pid (.holding now false)

def step (ttl : Ttl) (s : System β) : Event β → Option (System β)
  | .start pid hash =>
    match s.execs pid with
    | .idle => some { s with execs := Function.update s.execs pid (.reserving hash .insert) }
    | _ => none
  | .reserve pid now =>
    if now < s.clock then none
    else match s.execs pid with
      | .reserving hash pc =>
        (reserveStep ttl hash now s.row pc).map fun (row, pc) =>
          match pc with
          | .answered _ .reserved =>
            { clock := now, row := row, execs := granted s pid now, latest := some pid }
          | .answered _ _ =>
            { s with clock := now, row := row, execs := Function.update s.execs pid .refused }
          | pc =>
            { s with clock := now, row := row,
                     execs := Function.update s.execs pid (.reserving hash pc) }
      | _ => none
  -- the UPDATE of `complete` and the DELETE of `release` take effect at their commit
  | .complete pid responseStatus responseBody =>
    match s.execs pid with
    | .holding _ _ =>
      some { s with row := complete s.row responseStatus responseBody,
                    execs := Function.update s.execs pid (.completed responseStatus responseBody) }
    | _ => none
  | .release pid =>
    match s.execs pid with
    | .holding _ _ =>
      some { s with row := release s.row, execs := Function.update s.execs pid .released }
    | _ => none

/-! ### What fencing would guarantee -/

/-- The execution holds a reservation that is not past the take-over window. -/
def System.Holds (ttl : Ttl) (s : System β) (pid : ℕ) : Prop :=
  ∃ since lost, s.execs pid = .holding since lost ∧ s.clock ≤ since + ttl.inProgress

/-- The execution was granted the key, was taken over, and has not ended. -/
def System.Lost (s : System β) (pid : ℕ) : Prop :=
  ∃ since, s.execs pid = .holding since true

/-- The execution that an event ends. -/
def Event.ends : Event β → Option ℕ
  | complete pid _ _ => some pid
  | release pid => some pid
  | _ => none

/-- What the row stores is what its latest holder answered. -/
def System.Answered (s : System β) : Prop :=
  ∀ r, s.row = some r → r.status = .complete → ∃ pid status body, s.latest = some pid ∧
    s.execs pid = .completed status body ∧ r.responseStatus = some status ∧
    r.responseBody = some body

/-- The guarantees: one holder at a time, a stored response of the latest holder, and a
row that the end of an execution that was taken over leaves alone. -/
structure Fences (ttl : Ttl) (ok : System β → Event β → Prop) (s : System β) : Prop where
  one : ∀ pid pid', s.Holds ttl pid → s.Holds ttl pid' → pid = pid'
  answered : s.Answered
  unchanged : ∀ e u pid, ok s e → step ttl s e = some u → e.ends = some pid → s.Lost pid →
    u.row = s.row

/-- The reservation that a take-over replaces is the one that its SELECT has read: nobody has been
granted the key in between. -/
def Unrenewed (row : Option (Row β)) : Execution β → Prop
  | .reserving _ (.update (some seen) _) => ∀ r ∈ row, r.createdAt = seen.createdAt
  | _ => True

/-- An execution that was taken over ends only when the row is gone, and a take-over replaces what
it has read. -/
def Fenced (s : System β) : Event β → Prop
  | .complete pid _ _ => s.Lost pid → s.row = none
  | .release pid => s.Lost pid → s.row = none
  | .reserve pid _ => Unrenewed s.row (s.execs pid)
  | .start _ _ => True

instance (s : System β) (pid : ℕ) : Decidable (s.Lost pid) :=
  match h : s.execs pid with
  | .holding since true => .isTrue ⟨since, h⟩
  | .holding _ false | .idle | .reserving _ _ | .refused | .completed _ _ | .released =>
    .isFalse fun ⟨_, h'⟩ => by rw [h] at h'; cases h'

instance (row : Option (Row β)) (x : Execution β) : Decidable (Unrenewed row x) := by
  unfold Unrenewed
  split <;> infer_instance

instance (s : System β) (e : Event β) : Decidable (Fenced s e) := by
  unfold Fenced
  split <;> infer_instance

/-! ### One statement -/

/-- The take-over window, as a caller between its SELECT and its UPDATE knows it. -/
def Aged (ttl : Ttl) (now : ℕ) : Pc β → Prop
  | .update seen .inProgress => ∃ r, seen = some r ∧ r.createdAt + ttl.inProgress < now
  | _ => True

/-- **The window check**: a caller that is about to take a reservation over has read one that is
past its window. -/
theorem aged_of_judge {ttl : Ttl} {row : Option (Row β)} {hash : String} {now : ℕ}
    {expected : KeyStatus} (h : judge ttl row hash now = .takeOver expected) :
    Aged ttl now (.update row expected) := by
  cases row with
  | none => cases h
  | some r =>
    simp only [judge] at h
    split at h
    · cases h
    cases hs : r.status <;> simp only [hs] at h <;> split at h <;> cases h
    · next hlt => exact ⟨r, rfl, hlt⟩
    · trivial

/-- A statement of `reserve` leaves the row, or is a grant that writes a fresh one where
there was none or where it was expected. -/
theorem reserveStep_grant {ttl : Ttl} {hash : String} {now : ℕ} {row row' : Option (Row β)}
    {pc pc' : Pc β} (h : reserveStep ttl hash now row pc = some (row', pc')) :
    (row' = row ∧ (∀ seen, pc' ≠ .answered seen .reserved) ∧ Aged ttl now pc') ∨
      (row' = some (freshRow hash now) ∧ (∃ seen, pc' = .answered seen .reserved) ∧
        (row = none ∨ ∃ r seen, row = some r ∧ pc = .update seen r.status)) := by
  cases pc with
  | insert =>
    cases row with
    | none =>
      cases h
      exact .inr ⟨rfl, ⟨_, rfl⟩, .inl rfl⟩
    | some r =>
      cases h
      exact .inl ⟨rfl, by simp, trivial⟩
  | select =>
    left
    simp only [reserveStep] at h
    cases hj : judge ttl row hash now with
    | answer outcome =>
      rw [hj] at h
      cases h
      refine ⟨rfl, fun seen hs => ?_, trivial⟩
      cases hs
      -- the verdict on a row is never a grant
      cases row with
      | none => cases hj
      | some r =>
        by_cases hr : r.bodyHash = hash
        · rcases judge_answer hr hj with ho | ⟨_, _, ho⟩ <;> cases ho
        · simp [judge, hr] at hj
    | takeOver expected =>
      rw [hj] at h
      cases h
      exact ⟨rfl, by simp, aged_of_judge hj⟩
  | update seen expected =>
    simp only [reserveStep, Option.some.injEq, Prod.mk.injEq] at h
    obtain ⟨rfl, rfl⟩ := h
    cases row with
    | none => exact .inl ⟨rfl, by rintro _ ⟨⟩, trivial⟩
    | some r =>
      by_cases hs : r.status = expected
      · subst hs
        rw [takeOver_granted]
        exact .inr ⟨rfl, ⟨_, rfl⟩, .inr ⟨r, seen, rfl, rfl⟩⟩
      · rw [takeOver_refused hs]
        exact .inl ⟨rfl, by simp, trivial⟩
  | answered seen outcome => cases h

/-- What a step can do. -/
theorem step_cases {ttl : Ttl} {s u : System β} {e : Event β} (h : step ttl s e = some u) :
    (∃ pid x, (s.execs pid = .idle ∨ ∃ hash pc, s.execs pid = .reserving hash pc) ∧
      (x = .refused ∨ ∃ hash pc, x = .reserving hash pc ∧ Aged ttl u.clock pc) ∧ e.ends = none ∧
      s.clock ≤ u.clock ∧ u.row = s.row ∧ u.execs = Function.update s.execs pid x ∧
      u.latest = s.latest) ∨
    (∃ pid hash pc now, e = .reserve pid now ∧ s.execs pid = .reserving hash pc ∧
      (s.row = none ∨ ∃ r seen, s.row = some r ∧ pc = .update seen r.status) ∧
      s.clock ≤ now ∧ u = ⟨now, some (freshRow hash now), granted s pid now, some pid⟩) ∨
    (∃ pid since lost x row, s.execs pid = .holding since lost ∧ e.ends = some pid ∧
      (row = none ∧ x = .released ∨
        ∃ status body, row = complete s.row status body ∧ x = .completed status body) ∧
      u = { s with row := row, execs := Function.update s.execs pid x }) := by
  cases e with
  | start pid hash =>
    simp only [step] at h
    split at h
    · next hidle =>
      cases h
      exact .inl ⟨pid, _, .inl hidle, .inr ⟨hash, .insert, rfl, trivial⟩, rfl, le_rfl, rfl, rfl, rfl⟩
    · cases h
  | reserve pid now =>
    simp only [step] at h
    split at h
    · cases h
    · next hclock =>
      have hclock : s.clock ≤ now := Nat.le_of_not_lt hclock
      split at h
      · next hash pc hexec =>
        obtain ⟨⟨row, pc'⟩, hr, rfl⟩ := Option.map_eq_some_iff.mp h
        rcases reserveStep_grant hr with ⟨rfl, hno, haged⟩ | ⟨rfl, ⟨seen, rfl⟩, hrow⟩
        · left
          dsimp only
          split
          · exact absurd rfl (hno _)
          · exact ⟨pid, _, .inr ⟨hash, pc, hexec⟩, .inl rfl, rfl, hclock, rfl, rfl, rfl⟩
          · exact ⟨pid, _, .inr ⟨hash, pc, hexec⟩, .inr ⟨_, _, rfl, haged⟩, rfl, hclock, rfl, rfl,
              rfl⟩
        · exact .inr (.inl ⟨pid, hash, pc, now, rfl, hexec, hrow, hclock, rfl⟩)
      · cases h
  | complete pid status body =>
    simp only [step] at h
    split at h
    · next since lost hexec =>
      cases h
      exact .inr (.inr ⟨pid, since, lost, _, _, hexec, rfl, .inr ⟨_, _, rfl, rfl⟩, rfl⟩)
    · cases h
  | release pid =>
    simp only [step] at h
    split at h
    · next since lost hexec =>
      cases h
      exact .inr (.inr ⟨pid, since, lost, _, _, hexec, rfl, .inl ⟨rfl, rfl⟩, rfl⟩)
    · cases h

/-! ### The invariant -/

structure Inv (ttl : Ttl) (s : System β) : Prop where
  /-- An execution that was not taken over is the latest, and the row is its reservation. -/
  own : ∀ pid since, s.execs pid = .holding since false → s.latest = some pid ∧
    ∃ r, s.row = some r ∧ r.status = .inProgress ∧ r.createdAt = since
  /-- Whoever was taken over was past the window by then. -/
  lost : ∀ pid since, s.execs pid = .holding since true → since + ttl.inProgress < s.clock
  /-- Whoever is about to take a reservation over has read one past its window. -/
  aged : ∀ pid hash pc, s.execs pid = .reserving hash pc → Aged ttl s.clock pc
  answered : s.Answered

theorem Aged.later {ttl : Ttl} {now now' : ℕ} {pc : Pc β} (h : Aged ttl now pc) (hle : now ≤ now') :
    Aged ttl now' pc := by
  unfold Aged at h ⊢
  split
  · obtain ⟨r, hr, hlt⟩ := h
    exact ⟨r, hr, hlt.trans_le hle⟩
  · trivial

/-- The other executions after a grant: those that hold the row lose it. -/
theorem granted_of_ne {s : System β} {pid q : ℕ} (now : ℕ) (hq : q ≠ pid) :
    granted s pid now q = s.execs q ∨
      (s.row.isSome ∧ s.latest = some q ∧ granted s pid now q = (s.execs q).lose) := by
  unfold granted
  rw [Function.update_of_ne hq]
  rcases hrow : s.row with _ | r
  · exact .inl rfl
  rcases hlatest : s.latest with _ | e
  · exact .inl rfl
  by_cases he : q = e
  · subst he
    exact .inr ⟨rfl, rfl, by simp⟩
  · exact .inl (by simp [he])

/-- After a take-over the previous holder has lost its reservation. -/
theorem granted_latest {s : System β} {pid q : ℕ} (now : ℕ) (hq : q ≠ pid) (hrow : s.row.isSome)
    (hlatest : s.latest = some q) : granted s pid now q = (s.execs q).lose := by
  obtain ⟨r, hr⟩ := Option.isSome_iff_exists.mp hrow
  simp [granted, hq, hr, hlatest]

/-- Statements that write no row and answer no grant. -/
theorem Inv.quiet {ttl : Ttl} {s u : System β} {pid : ℕ} {x : Execution β} (hi : Inv ttl s)
    (hold : s.execs pid = .idle ∨ ∃ hash pc, s.execs pid = .reserving hash pc)
    (hx : x = .refused ∨ ∃ hash pc, x = .reserving hash pc ∧ Aged ttl u.clock pc)
    (hclock : s.clock ≤ u.clock)
    (hrow : u.row = s.row) (hexecs : u.execs = Function.update s.execs pid x)
    (hlatest : u.latest = s.latest) : Inv ttl u := by
  have hback : ∀ q since lost, u.execs q = .holding since lost →
      s.execs q = .holding since lost := by
    intro q since lost hq
    rw [hexecs] at hq
    by_cases hqp : q = pid
    · subst hqp
      rw [Function.update_self] at hq
      rcases hx with rfl | ⟨_, _, rfl, -⟩ <;> cases hq
    · rwa [Function.update_of_ne hqp] at hq
  refine ⟨fun q since hq => ?_, fun q since hq => ?_, fun q hash pc hq => ?_, fun r hr hs => ?_⟩
  · rw [hlatest, hrow]
    exact hi.own q since (hback q since false hq)
  · exact (hi.lost q since (hback q since true hq)).trans_le hclock
  · rw [hexecs] at hq
    by_cases hqp : q = pid
    · subst hqp
      rw [Function.update_self] at hq
      rcases hx with rfl | ⟨_, _, rfl, haged⟩ <;> cases hq
      exact haged
    · rw [Function.update_of_ne hqp] at hq
      exact (hi.aged q hash pc hq).later hclock
  · obtain ⟨q, status, body, hl, hq, hst, hb⟩ := hi.answered r (hrow ▸ hr) hs
    refine ⟨q, status, body, hlatest.trans hl, ?_, hst, hb⟩
    rw [hexecs, Function.update_of_ne, hq]
    rintro rfl
    rcases hold with h | ⟨_, _, h⟩ <;> rw [h] at hq <;> cases hq

/-- **A grant**: the holder before it was past the window. -/
theorem Inv.grant {ttl : Ttl} {s : System β} {pid now : ℕ} {hash : String} {pc : Pc β}
    (hi : Inv ttl s) (hexec : s.execs pid = .reserving hash pc)
    (hrow : s.row = none ∨ ∃ r seen, s.row = some r ∧ pc = .update seen r.status)
    (hseen : Unrenewed s.row (s.execs pid)) (hclock : s.clock ≤ now) :
    Inv ttl (⟨now, some (freshRow hash now), granted s pid now, some pid⟩ : System β) := by
  have hself : granted s pid now pid = .holding now false := by simp [granted]
  refine ⟨fun q since (hq : granted s pid now q = _) => ?_,
    fun q since (hq : granted s pid now q = _) => ?_,
    fun q hash' pc' (hq : granted s pid now q = _) => ?_, fun r hr hs => ?_⟩
  · by_cases hqp : q = pid
    · subst hqp
      rw [hself] at hq
      cases hq
      exact ⟨rfl, _, rfl, rfl, rfl⟩
    · -- nobody else still holds the row
      exfalso
      have hold : s.execs q = .holding since false := by
        rcases granted_of_ne now hqp with h | ⟨-, -, h⟩
        · rwa [← h]
        · rw [h] at hq
          cases hx : s.execs q <;> rw [hx] at hq <;> cases hq
      obtain ⟨hl, r, hr, -⟩ := hi.own q since hold
      have hlost := granted_latest now hqp (by simp [hr]) hl
      rw [hlost, hold] at hq
      cases hq
  · show since + ttl.inProgress < now
    by_cases hqp : q = pid
    · subst hqp
      rw [hself] at hq
      cases hq
    rcases granted_of_ne now hqp with h | ⟨hsome, hl, h⟩
    · rw [h] at hq
      exact (hi.lost q since hq).trans_le hclock
    · rw [h] at hq
      cases hx : s.execs q with
      | holding since' lost =>
        rw [hx] at hq
        cases hq
        cases lost with
        | true => exact (hi.lost q since hx).trans_le hclock
        | false =>
          obtain ⟨-, r, hr, hst, rfl⟩ := hi.own q since hx
          rcases hrow with hnone | ⟨r', seen, hr', rfl⟩
          · rw [hnone] at hr
            cases hr
          · -- the reservation is the one that the SELECT has found past its window
            obtain rfl : r' = r := Option.some.inj (hr'.symm.trans hr)
            rw [hst] at hexec
            obtain ⟨r₀, rfl, hlt⟩ := hi.aged pid _ _ hexec
            rw [hexec] at hseen
            rw [hseen r' hr]
            exact hlt.trans_le hclock
      | _ => rw [hx] at hq; cases hq
  · by_cases hqp : q = pid
    · subst hqp
      rw [hself] at hq
      cases hq
    have hold : s.execs q = .reserving hash' pc' := by
      rcases granted_of_ne now hqp with h | ⟨-, -, h⟩
      · rwa [← h]
      · rw [h] at hq
        cases hx : s.execs q <;> rw [hx] at hq <;> cases hq
        rfl
    exact (hi.aged q hash' pc' hold).later hclock
  · cases hr
    cases hs

/-- **The end of an execution**: its reservation is the row, or there is no row. -/
theorem Inv.finish {ttl : Ttl} {s : System β} {pid since : ℕ} {lost : Bool} {x : Execution β}
    {row : Option (Row β)} (hi : Inv ttl s) (hexec : s.execs pid = .holding since lost)
    (hx : row = none ∧ x = .released ∨
      ∃ status body, row = complete s.row status body ∧ x = .completed status body)
    (hgone : s.Lost pid → s.row = none) :
    Inv ttl { s with row := row, execs := Function.update s.execs pid x } := by
  have hback : ∀ q since lost, Function.update s.execs pid x q = .holding since lost →
      q ≠ pid ∧ s.execs q = .holding since lost := by
    intro q since lost hq
    by_cases hqp : q = pid
    · subst hqp
      rw [Function.update_self] at hq
      rcases hx with ⟨-, rfl⟩ | ⟨_, _, -, rfl⟩ <;> cases hq
    · exact ⟨hqp, by rwa [Function.update_of_ne hqp] at hq⟩
  -- nobody else holds the row: it is this execution's, or there is none
  have halone : ∀ q since, q ≠ pid → s.execs q ≠ .holding since false := by
    intro q since' hqp hq
    obtain ⟨hl, r, hr, -⟩ := hi.own q since' hq
    cases lost with
    | true =>
      rw [hgone ⟨since, hexec⟩] at hr
      cases hr
    | false =>
      have hl' := (hi.own pid since hexec).1
      rw [hl] at hl'
      exact hqp (Option.some.inj hl')
  refine ⟨fun q since hq => ?_, fun q since hq => ?_, fun q hash pc hq => ?_, fun r hr hs => ?_⟩
  · obtain ⟨hqp, hq⟩ := hback q since false hq
    exact absurd hq (halone q since hqp)
  · exact hi.lost q since (hback q since true hq).2
  · by_cases hqp : q = pid
    · subst hqp
      have hq : Function.update s.execs q x q = .reserving hash pc := hq
      rw [Function.update_self] at hq
      rcases hx with ⟨-, rfl⟩ | ⟨_, _, -, rfl⟩ <;> cases hq
    · have hq : Function.update s.execs pid x q = .reserving hash pc := hq
      rw [Function.update_of_ne hqp] at hq
      exact hi.aged q hash pc hq
  · rcases hx with ⟨rfl, -⟩ | ⟨status, body, rfl, rfl⟩
    · cases hr
    · obtain ⟨r₀, hr₀, rfl⟩ := Option.map_eq_some_iff.mp (show s.row.map _ = some r from hr)
      cases lost with
      | true =>
        rw [hgone ⟨since, hexec⟩] at hr₀
        cases hr₀
      | false =>
        exact ⟨pid, status, body, (hi.own pid since hexec).1, by simp, rfl, rfl⟩

/-- **One step** keeps the invariant, if it is fenced. -/
theorem Inv.step {ttl : Ttl} {s u : System β} {e : Event β} (hi : Inv ttl s)
    (hok : Fenced s e) (h : step ttl s e = some u) : Inv ttl u := by
  rcases step_cases h with ⟨pid, x, hold, hx, -, hclock, hrow, hexecs, hlatest⟩ |
    ⟨pid, hash, pc, now, rfl, hexec, hrow, hclock, rfl⟩ |
    ⟨pid, since, lost, x, row, hexec, hends, hx, rfl⟩
  · exact hi.quiet hold hx hclock hrow hexecs hlatest
  · exact hi.grant hexec hrow hok hclock
  · refine hi.finish hexec hx ?_
    cases e with
    | complete q status body => cases hends; exact hok
    | release q => cases hends; exact hok
    | _ => cases hends

theorem inv_of_run {ttl : Ttl} {es : List (Event β)} {s : System β}
    (h : Run (step ttl) Fenced .empty es s) : Inv ttl s := by
  have h0 : Inv ttl (System.empty : System β) := ⟨nofun, nofun, nofun, nofun⟩
  exact h.invariant h0 fun _ _ _ hi hok hs => hi.step hok hs

/-- **Fenced runs.**  If no execution that was taken over ends while there is a row, and
nobody is granted the key between the SELECT and the UPDATE of a take-over, then one execution
holds the key at a time and a stored response is the latest holder's. -/
theorem fences_of_run {ttl : Ttl} {es : List (Event β)} {s : System β}
    (h : Run (step ttl) Fenced .empty es s) : Fences ttl Fenced s := by
  have hi := inv_of_run h
  refine ⟨?_, hi.answered, ?_⟩
  · rintro pid pid' ⟨since, lost, hp, hfresh⟩ ⟨since', lost', hp', hfresh'⟩
    cases lost with
    | true =>
      have := hi.lost pid since hp
      omega
    | false =>
      cases lost' with
      | true =>
        have := hi.lost pid' since' hp'
        omega
      | false =>
        have hl := (hi.own pid since hp).1
        have hl' := (hi.own pid' since' hp').1
        exact Option.some.inj (hl.symm.trans hl')
  · intro e u pid hok hs hends hlost
    have hgone : s.row = none := by
      cases e with
      | complete q status body => cases hends; exact hok hlost
      | release q => cases hends; exact hok hlost
      | _ => cases hends
    rcases step_cases hs with ⟨_, _, _, _, hno, -⟩ | ⟨_, _, _, _, rfl, -⟩ |
      ⟨q, _, _, _, row, _, _, hx, rfl⟩
    · rw [hends] at hno
      cases hno
    · cases hends
    · show row = s.row
      rcases hx with ⟨rfl, -⟩ | ⟨status, body, rfl, -⟩
      · exact hgone.symm
      · rw [hgone]
        rfl

/-! ### Runs -/

/-- A reservation at 0, and its take-over at 301 by the next execution. -/
def slowHolder : List (Event String) :=
  [.start 0 "h", .reserve 0 0, .start 1 "h", .reserve 1 301, .reserve 1 301, .reserve 1 301]

/-- The execution that took over answers, and the slow one never does. -/
theorem fences_of_run_takenOver : ∃ s : System String,
    Run (step {}) Fenced .empty (slowHolder ++ [.complete 1 200 "ok"]) s ∧
      s.latest = some 1 ∧ s.Lost 0 ∧ Fences {} Fenced s := by
  obtain ⟨s, hs, hp⟩ : ∃ s : System String,
      Run (step {}) Fenced .empty (slowHolder ++ [.complete 1 200 "ok"]) s ∧
      decide (s.latest = some 1 ∧ s.Lost 0) = true :=
    exists_run_of_execOk (by decide)
  obtain ⟨hlatest, hlost⟩ := of_decide_eq_true hp
  exact ⟨s, hs, hlatest, hlost, fences_of_run hs⟩

/-- The slow execution releases the row of its successor, and a third reserves it too;
or it stores its own response there. -/
theorem not_fenced :
    (∃ s : System String, Run (step {}) Always .empty
      (slowHolder ++ [.release 0, .start 2 "h", .reserve 2 302]) s ∧
      s.Holds {} 1 ∧ s.Holds {} 2 ∧ ¬ Fences {} Always s) ∧
    ∃ s : System String, Run (step {}) Always .empty (slowHolder ++ [.complete 0 200 "late"]) s ∧
      s.latest = some 1 ∧ (s.row.bind (·.responseBody)) = some "late" ∧ ¬ s.Answered := by
  refine ⟨⟨_, run_iff_exec.mpr rfl, ⟨301, false, rfl, by decide⟩, ⟨302, false, rfl, by decide⟩,
    fun h => ?_⟩, ⟨_, run_iff_exec.mpr rfl, rfl, rfl, fun h => ?_⟩⟩
  · exact absurd (h.one 1 2 ⟨301, false, rfl, by decide⟩ ⟨302, false, rfl, by decide⟩) (by decide)
  · obtain ⟨pid, status, body, hl, hp, -⟩ := h _ rfl rfl
    cases hl
    cases hp

end Fencing

end Idempotency
