/-
Concurrent callers of `reserve` on one existing key.

`n` callers run `reserve` with the same request hash against the row of one
key; a step is one statement of one caller, at a clock reading that never goes
back.  The claim of `_take_over` is that `WHERE status = :expected` referees
them: of the callers that read an expired row exactly one is granted it.

* `reserve_exclusive_of_complete` — for an expired COMPLETE row that is so,
  since the winner's UPDATE leaves a status nobody else expects;
* `two_takeOvers` — for an expired IN_PROGRESS row the winner's UPDATE leaves
  the status it expected, and the next caller's guard holds again;
* `reserve_exclusive_iff` — so the referee works exactly on COMPLETE rows.
-/
import SmartFoodOps.Lib.Machine
import SmartFoodOps.Idempotency.Store
import Mathlib.Data.Fintype.Basic

open Machine

namespace Idempotency

variable {β : Type*} {n : ℕ}

/-- Where one caller stands in `reserve`; `seen` is the row its SELECT returned. -/
inductive Pc (β : Type*)
  | insert
  | select
  | update (seen : Option (Row β)) (expected : KeyStatus)
  | answered (seen : Option (Row β)) (outcome : ReserveOutcome β)
  deriving DecidableEq

/-- The shared row and the callers. -/
structure Race (β : Type*) (n : ℕ) where
  clock : ℕ
  row : Option (Row β)
  pc : Fin n → Pc β

/-- One statement of one caller, and the clock reading it is executed at. -/
structure Statement (n : ℕ) where
  caller : Fin n
  now : ℕ

/-- The next statement of a caller of `reserve`, with its effect on the row. -/
def reserveStep (ttl : Ttl) (hash : String) (now : ℕ) (row : Option (Row β)) :
    Pc β → Option (Option (Row β) × Pc β)
  | .insert =>
    match insertRow row hash now with
    | some r => some (some r, .answered none .reserved)
    | none => some (row, .select)
  | .select =>
    match judge ttl row hash now with
    | .answer outcome => some (row, .answered row outcome)
    | .takeOver expected => some (row, .update row expected)
  | .update seen expected =>
    some ((takeOver row expected hash now).1,
      .answered seen (takeOver row expected hash now).2)
  | .answered _ _ => none

/-- Callers interleave statement by statement. -/
def raceStep (ttl : Ttl) (hash : String) (s : Race β n) (i : Statement n) : Option (Race β n) :=
  if i.now < s.clock then none
  else (reserveStep ttl hash i.now s.row (s.pc i.caller)).map fun (row, pc) =>
    { clock := i.now, row := row, pc := Function.update s.pc i.caller pc }

/-- All callers are about to INSERT against the existing row `r`. -/
def raceStart (n : ℕ) (r : Row β) (now : ℕ) : Race β n :=
  { clock := now, row := some r, pc := fun _ => .insert }

/-- The row is past its window. -/
def Stale (ttl : Ttl) (now : ℕ) (r : Row β) : Prop :=
  match r.status with
  | .complete => r.createdAt + ttl.replay < now
  | .inProgress => r.createdAt + ttl.inProgress < now

/-- At most one of the callers that read `r` is granted it, and every answer but a
grant is InProgress or Replay. -/
def Exclusive (r : Row β) (s : Race β n) : Prop :=
  (∀ i j, s.pc i = .answered (some r) .reserved → s.pc j = .answered (some r) .reserved → i = j) ∧
  ∀ i seen outcome, s.pc i = .answered seen outcome →
    outcome = .reserved ∨ outcome = .inProgress ∨
      ∃ status body, outcome = .replay status body

/-! ### One statement -/

/-- What one statement of one caller does to the shared state. -/
theorem raceStep_cases {ttl : Ttl} {hash : String} {s t : Race β n} {i : Statement n}
    (h : raceStep ttl hash s i = some t) :
    ∃ row pc, reserveStep ttl hash i.now s.row (s.pc i.caller) = some (row, pc) ∧
      t.row = row ∧ t.pc = Function.update s.pc i.caller pc := by
  unfold raceStep at h
  split at h
  · cases h
  · obtain ⟨⟨row, pc⟩, hr, rfl⟩ := Option.map_eq_some_iff.mp h
    exact ⟨row, pc, hr, rfl, rfl⟩

/-- The row keeps its hash, a caller in `_take_over` expects the status it read, and
nobody is told of a mismatch. -/
structure Matching (hash : String) (s : Race β n) : Prop where
  row : ∃ r, s.row = some r ∧ r.bodyHash = hash
  expects : ∀ i seen expected, s.pc i = .update seen expected →
    ∃ r, seen = some r ∧ r.status = expected
  answers : ∀ i seen outcome, s.pc i = .answered seen outcome →
    outcome = .reserved ∨ outcome = .inProgress ∨
      ∃ status body, outcome = .replay status body

/-- One caller's statement against a row of its own hash. -/
theorem reserveStep_matching {ttl : Ttl} {hash : String} {now : ℕ} {r : Row β}
    {pc pc' : Pc β} {row' : Option (Row β)} (hr : r.bodyHash = hash)
    (h : reserveStep ttl hash now (some r) pc = some (row', pc')) :
    (∃ r', row' = some r' ∧ r'.bodyHash = hash) ∧
    (∀ seen expected, pc' = .update seen expected → ∃ q, seen = some q ∧ q.status = expected) ∧
    (∀ seen outcome, pc' = .answered seen outcome →
      outcome = .reserved ∨ outcome = .inProgress ∨
        ∃ status body, outcome = .replay status body) := by
  cases pc with
  | insert =>
    simp only [reserveStep, insertRow, Option.some.injEq, Prod.mk.injEq] at h
    obtain ⟨rfl, rfl⟩ := h
    exact ⟨⟨r, rfl, hr⟩, by simp, by simp⟩
  | select =>
    simp only [reserveStep] at h
    cases hj : judge ttl (some r) hash now with
    | answer outcome =>
      simp only [hj, Option.some.injEq, Prod.mk.injEq] at h
      obtain ⟨rfl, rfl⟩ := h
      refine ⟨⟨r, rfl, hr⟩, by simp, fun seen o ho => ?_⟩
      cases ho
      exact .inr (judge_answer hr hj)
    | takeOver expected =>
      simp only [hj, Option.some.injEq, Prod.mk.injEq] at h
      obtain ⟨rfl, rfl⟩ := h
      refine ⟨⟨r, rfl, hr⟩, fun seen e he => ?_, by simp⟩
      cases he
      obtain ⟨q, hq, -, hs⟩ := judge_takeOver hj
      exact ⟨q, hq, hs⟩
  | update seen expected =>
    simp only [reserveStep, Option.some.injEq, Prod.mk.injEq] at h
    obtain ⟨rfl, rfl⟩ := h
    by_cases hs : r.status = expected
    · subst hs
      rw [takeOver_granted]
      refine ⟨⟨_, rfl, rfl⟩, by simp, fun _ o ho => ?_⟩
      cases ho
      exact .inl rfl
    · rw [takeOver_refused hs]
      refine ⟨⟨r, rfl, hr⟩, by simp, fun _ o ho => ?_⟩
      cases ho
      exact .inr (.inl rfl)
  | answered seen outcome => cases h

theorem Matching.step {ttl : Ttl} {hash : String} {s t : Race β n} {i : Statement n}
    (hm : Matching hash s) (h : raceStep ttl hash s i = some t) : Matching hash t := by
  obtain ⟨row, pc, hstep, hrow, hpc⟩ := raceStep_cases h
  obtain ⟨r, hr, hhash⟩ := hm.row
  rw [hr] at hstep
  obtain ⟨h1, h2, h3⟩ := reserveStep_matching hhash hstep
  refine ⟨hrow ▸ h1, fun j => ?_, fun j => ?_⟩
  · by_cases hj : j = i.caller
    · subst hj
      rw [hpc, Function.update_self]
      exact h2
    · rw [hpc, Function.update_of_ne hj]
      exact hm.expects j
  · by_cases hj : j = i.caller
    · subst hj
      rw [hpc, Function.update_self]
      exact h3
    · rw [hpc, Function.update_of_ne hj]
      exact hm.answers j

/-! ### COMPLETE rows -/

/-- For a COMPLETE row `r`: while the row is COMPLETE nobody who read `r` has been
granted it, and at most one ever is. -/
structure Refereed (r : Row β) (s : Race β n) : Prop where
  ungranted : ∀ q, s.row = some q → q.status = .complete →
    ∀ i, s.pc i ≠ .answered (some r) .reserved
  unique : ∀ i j, s.pc i = .answered (some r) .reserved →
    s.pc j = .answered (some r) .reserved → i = j

/-- A caller that read a COMPLETE row is granted only by moving the row out of
COMPLETE, and no statement moves it back. -/
theorem reserveStep_referee {ttl : Ttl} {hash : String} {now : ℕ} {r q : Row β}
    {pc pc' : Pc β} {row' : Option (Row β)} (hr : r.status = .complete)
    (hseen : ∀ seen expected, pc = .update seen expected →
      ∃ q, seen = some q ∧ q.status = expected)
    (h : reserveStep ttl hash now (some q) pc = some (row', pc')) :
    (∀ q', row' = some q' → q'.status = .complete → q.status = .complete ∧
      pc' ≠ .answered (some r) .reserved) ∧
    (pc' = .answered (some r) .reserved → q.status = .complete) := by
  cases pc with
  | insert =>
    simp only [reserveStep, insertRow, Option.some.injEq, Prod.mk.injEq] at h
    obtain ⟨rfl, rfl⟩ := h
    refine ⟨fun q' hq' hs => ?_, by simp⟩
    cases hq'
    exact ⟨hs, by simp⟩
  | select =>
    simp only [reserveStep] at h
    cases hj : judge ttl (some q) hash now with
    | answer outcome =>
      simp only [hj, Option.some.injEq, Prod.mk.injEq] at h
      obtain ⟨rfl, rfl⟩ := h
      have hne : outcome ≠ .reserved := by
        rintro rfl
        simp only [judge] at hj
        split at hj
        · cases hj
        · cases hs : q.status <;> simp only [hs] at hj <;> split at hj <;> cases hj
      refine ⟨fun q' hq' hs => ?_, fun hp => ?_⟩
      · cases hq'
        refine ⟨hs, fun hp => hne ?_⟩
        cases hp
        rfl
      · cases hp
        exact absurd rfl hne
    | takeOver expected =>
      simp only [hj, Option.some.injEq, Prod.mk.injEq] at h
      obtain ⟨rfl, rfl⟩ := h
      refine ⟨fun q' hq' hs => ?_, by simp⟩
      cases hq'
      exact ⟨hs, by simp⟩
  | update seen expected =>
    simp only [reserveStep, Option.some.injEq, Prod.mk.injEq] at h
    obtain ⟨rfl, rfl⟩ := h
    obtain ⟨p, rfl, hp⟩ := hseen seen expected rfl
    by_cases hs : q.status = expected
    · -- granted: the row is a fresh reservation from here on
      subst hs
      rw [takeOver_granted]
      refine ⟨fun q' hq' hs' => ?_, fun hpc => ?_⟩
      · cases hq'
        cases hs'
      · simp only [Pc.answered.injEq, Option.some.injEq, and_true] at hpc
        rw [← hp, hpc, hr]
    · rw [takeOver_refused hs]
      refine ⟨fun q' hq' hs' => ?_, by simp⟩
      cases hq'
      exact ⟨hs', by simp⟩
  | answered seen outcome => cases h

theorem Refereed.step {ttl : Ttl} {hash : String} {r : Row β} {s t : Race β n}
    {i : Statement n} (hr : r.status = .complete) (hm : Matching hash s) (hf : Refereed r s)
    (h : raceStep ttl hash s i = some t) : Refereed r t := by
  obtain ⟨row, pc, hstep, hrow, hpc⟩ := raceStep_cases h
  obtain ⟨q, hq, -⟩ := hm.row
  rw [hq] at hstep
  obtain ⟨hstay, hgrant⟩ := reserveStep_referee hr (hm.expects i.caller) hstep
  -- a grant needs the row COMPLETE, and then nobody was granted before
  have hfirst : pc = .answered (some r) .reserved →
      ∀ j, s.pc j ≠ .answered (some r) .reserved :=
    fun hp => hf.ungranted q hq (hgrant hp)
  refine ⟨fun q' hq' hs' j => ?_, fun j k hj hk => ?_⟩
  · obtain ⟨hs, hne⟩ := hstay q' (hrow ▸ hq') hs'
    by_cases hji : j = i.caller
    · subst hji
      rwa [hpc, Function.update_self]
    · rw [hpc, Function.update_of_ne hji]
      exact hf.ungranted q hq hs j
  · rw [hpc] at hj hk
    by_cases hji : j = i.caller <;> by_cases hki : k = i.caller
    · rw [hji, hki]
    · subst hji
      rw [Function.update_self] at hj
      rw [Function.update_of_ne hki] at hk
      exact absurd hk (hfirst hj k)
    · subst hki
      rw [Function.update_self] at hk
      rw [Function.update_of_ne hji] at hj
      exact absurd hj (hfirst hk j)
    · rw [Function.update_of_ne hji] at hj
      rw [Function.update_of_ne hki] at hk
      exact hf.unique j k hj hk

theorem raceStart_matching {hash : String} {r : Row β} {now : ℕ} (hr : r.bodyHash = hash) :
    Matching hash (raceStart n r now) :=
  ⟨⟨r, rfl, hr⟩, by simp [raceStart], by simp [raceStart]⟩

theorem race_matching {ttl : Ttl} {hash : String} {r : Row β} {now : ℕ} {s : Race β n}
    {is : List (Statement n)} (hr : r.bodyHash = hash)
    (h : Run (raceStep ttl hash) Always (raceStart n r now) is s) : Matching hash s :=
  h.invariant (raceStart_matching hr) fun _ _ _ hm _ hs => hm.step hs

/-- **The referee works on an expired COMPLETE row**, whatever the interleaving. -/
theorem reserve_exclusive_of_complete {ttl : Ttl} {hash : String} {r : Row β} {now : ℕ}
    {s : Race β n} {is : List (Statement n)} (hr : r.bodyHash = hash)
    (hs : r.status = .complete)
    (h : Run (raceStep ttl hash) Always (raceStart n r now) is s) : Exclusive r s := by
  have key : Matching hash s ∧ Refereed r s := by
    refine h.invariant (I := fun s => Matching hash s ∧ Refereed r s)
      ⟨raceStart_matching hr, by simp [raceStart], by simp [raceStart]⟩ ?_
    rintro t i u ⟨hm, hf⟩ - hstep
    exact ⟨hm.step hstep, hf.step hs hm hstep⟩
  exact ⟨key.2.unique, key.1.answers⟩

/-! ### IN_PROGRESS rows -/

/-- The schedule that defeats the guard: both callers read, then both update. -/
def twoTakeOvers (i j : Fin n) (now : ℕ) : List (Statement n) :=
  [⟨i, now⟩, ⟨i, now⟩, ⟨j, now⟩, ⟨j, now⟩, ⟨i, now⟩, ⟨j, now⟩]

/-- On an expired IN_PROGRESS row the guard refuses nobody: two callers that read it
are both granted. -/
theorem two_takeOvers {ttl : Ttl} {hash : String} {r : Row β} {now : ℕ} {i j : Fin n}
    (hr : r.bodyHash = hash) (hs : r.status = .inProgress)
    (hstale : r.createdAt + ttl.inProgress < now) (hij : i ≠ j) :
    ∃ s : Race β n, Run (raceStep ttl hash) Always (raceStart n r now) (twoTakeOvers i j now) s ∧
      s.pc i = .answered (some r) .reserved ∧ s.pc j = .answered (some r) .reserved := by
  have hji : j ≠ i := hij.symm
  have hj : judge ttl (some r) hash now = .takeOver .inProgress := by
    simp [judge, hr, hs, hstale]
  refine ⟨{ clock := now, row := some (freshRow hash now),
            pc := Function.update (Function.update (Function.update (Function.update
              (Function.update (Function.update (fun _ => .insert) i .select) i
                (.update (some r) .inProgress)) j .select) j (.update (some r) .inProgress))
              i (.answered (some r) .reserved)) j (.answered (some r) .reserved) },
    run_iff_exec.mpr ?_, ?_, ?_⟩
  · simp [twoTakeOvers, raceStep, raceStart, reserveStep, insertRow, hj, takeOver, hs, hij, hji]
  · simp [hij]
  · simp

/-- **Exactly when the take-over is exclusive**: for an expired row and `n` callers of
its own body, every interleaving grants it at most once iff the row is COMPLETE
(or there is no second caller). -/
theorem reserve_exclusive_iff (ttl : Ttl) (hash : String) (r : Row β) (now : ℕ)
    (hr : r.bodyHash = hash) (hstale : Stale ttl now r) :
    (∀ is (s : Race β n), Run (raceStep ttl hash) Always (raceStart n r now) is s →
      Exclusive r s) ↔ r.status = .complete ∨ n ≤ 1 := by
  constructor
  · intro h
    by_contra hno
    rw [not_or, not_le] at hno
    obtain ⟨hs, hn⟩ := hno
    have hs : r.status = .inProgress := by
      cases hst : r.status with
      | inProgress => rfl
      | complete => exact absurd hst hs
    simp only [Stale, hs] at hstale
    have hne : (⟨0, by omega⟩ : Fin n) ≠ ⟨1, by omega⟩ := by simp
    obtain ⟨s, hrun, h0, h1⟩ := two_takeOvers hr hs hstale hne
    exact hne ((h _ s hrun).1 _ _ h0 h1)
  · rintro (hs | hn) is s hrun
    · exact reserve_exclusive_of_complete hr hs hrun
    · have : Subsingleton (Fin n) := Fin.subsingleton_iff_le_one.mpr hn
      exact ⟨fun i j _ _ => Subsingleton.elim i j, (race_matching hr hrun).answers⟩

/-- A COMPLETE row that is past its day, with three callers. -/
theorem reserve_exclusive_iff_complete :
    (∀ is (s : Race String 3), Run (raceStep {} "h") Always
      (raceStart 3 ⟨"h", .complete, some 200, some "{}", 0⟩ 90000) is s →
      Exclusive ⟨"h", .complete, some 200, some "{}", 0⟩ s) ↔
      KeyStatus.complete = .complete ∨ 3 ≤ 1 :=
  reserve_exclusive_iff {} "h" ⟨"h", .complete, some 200, some "{}", 0⟩ 90000 rfl
    (by decide : 0 + 86400 < 90000)

/-- Two callers meet an IN_PROGRESS row whose holder died 301 seconds ago: both are
granted. -/
theorem takeOver_not_exclusive :
    ¬ ∀ (n : ℕ) (ttl : Ttl) (hash : String) (r : Row String) (now : ℕ), r.bodyHash = hash →
      Stale ttl now r → ∀ is (s : Race String n),
        Run (raceStep ttl hash) Always (raceStart n r now) is s → Exclusive r s := by
  intro h
  obtain ⟨s, hrun, h0, h1⟩ : ∃ s : Race String 2, Run (raceStep {} "h") Always
      (raceStart 2 ⟨"h", .inProgress, none, none, 0⟩ 301) (twoTakeOvers 0 1 301) s ∧
      s.pc 0 = .answered (some ⟨"h", .inProgress, none, none, 0⟩) .reserved ∧
      s.pc 1 = .answered (some ⟨"h", .inProgress, none, none, 0⟩) .reserved :=
    two_takeOvers rfl rfl (by decide) (by decide)
  have hstale : Stale {} 301 (⟨"h", .inProgress, none, none, 0⟩ : Row String) :=
    (by decide : 0 + 300 < 301)
  exact absurd ((h 2 {} "h" _ 301 rfl hstale _ s hrun).1 0 1 h0 h1) (by decide)

end Idempotency
