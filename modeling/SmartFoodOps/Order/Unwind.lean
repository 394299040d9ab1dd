/-
When the unwind after a deadline lands.

A forward step that runs out of time is undone by `_cancel`, which names the status
that the row is expected in: the workflow's own `stage`.  An attempt of the step may
have moved the row before its answer was lost.  Then the guard of BEGIN_CANCEL does
not match, IllegalTransition is not retried, and the unwind dies.

* `Unwinding.own`, `Unwinding.env` — an unwind that found the row at its stage keeps
  on its way, with what it has undone so far;
* `unwind_advances` — and every activity on that way can be answered;
* `unwind_lands_iff` — so the unwind lands exactly when the row is at the stage.
-/
import SmartFoodOps.Order.Coherence

open Machine Durable
open Dispatch (OrderId)

namespace Order

namespace Saga

open Workflow

/-- No other party writes the status of the order's row. -/
def SoleWriter (order : OrderId) (_ : System) (l : SagaLabel) : Prop :=
  match l with
  | .env (.otherMove o _ _) => o ≠ order
  | _ => True

instance (order : OrderId) (s : System) (l : SagaLabel) : Decidable (SoleWriter order s l) := by
  unfold SoleWriter
  split <;> infer_instance

/-- A hold may exist from VALIDATED on; then a void was attempted. -/
def Voided (stage : Stage) (v : View) : Prop := stage ≠ .placed → v.voided = true

/-- How an unwind ends. -/
structure Unwound (stage : Stage) (pc : Pc) (v : View) : Prop where
  returned : pc = .returned .cancelled
  cancelled : v.status = some .cancelled
  released : v.reservation ≠ some .active
  voided : Voided stage v

/-- The unwind lands: whatever happens, the workflow can still end, and it ends with
the order cancelled and its effects undone, never by a failure. -/
def Lands (cfg : Config) (order : OrderId) (stage : Stage) (s : System) : Prop :=
  ∀ is t, Run (step cfg) (SoleWriter order) s is t →
    ((t.insts order).pos.pc.Closed →
      Unwound stage (t.insts order).pos.pc (view order t.world)) ∧
    ∃ js u, Run (step cfg) (SoleWriter order) t js u ∧ (u.insts order).pos.pc.Closed

/-- An attempt that is fresh, or answered with what it was to achieve. -/
def Achieves (t : Attempt Phase Answer) (done : Prop) : Prop :=
  t = .working .first ∨ t = .answered .done ∧ done

/-- An unwind on its way. -/
def Unwinding (stage : Stage) (pc : Pc) (t : Attempt Phase Answer) (v : View) : Prop :=
  match pc with
  | .beginCancel expected _ void release =>
    (expected = stage.status ∧ void = (stage != .placed) ∧ release = true) ∧
    (v.status = some stage.status ∨ v.status = some .cancelling) ∧
      Achieves t (v.status = some .cancelling)
  | .voidAuthorization _ release =>
    release = true ∧ v.status = some .cancelling ∧ Achieves t (v.voided = true)
  | .releaseReservation _ =>
    v.status = some .cancelling ∧ Voided stage v ∧ Achieves t (v.reservation ≠ some .active)
  | .finishCancel _ =>
    (v.status = some .cancelling ∨ v.status = some .cancelled) ∧ Voided stage v ∧
      v.reservation ≠ some .active ∧ Achieves t (v.status = some .cancelled)
  | .returned .cancelled => Unwound stage pc v
  | _ => False

section

variable {cfg : Config} {order : OrderId} {stage : Stage} {pc : Pc} {t : Attempt Phase Answer}
  {v v' : View} {phase : Phase}

theorem Unwinding.restart (h : Unwinding stage pc t v) : Unwinding stage pc (.working .first) v := by
  cases pc with
  | beginCancel => exact ⟨h.1, h.2.1, .inl rfl⟩
  | voidAuthorization => exact ⟨h.1, h.2.1, .inl rfl⟩
  | releaseReservation => exact ⟨h.1, h.2.1, .inl rfl⟩
  | finishCancel => exact ⟨h.1, h.2.1, h.2.2.1, .inl rfl⟩
  | returned result => cases result <;> exact h
  | _ => exact h.elim

/-- An attempt of an unwind on its way is answered: the guards hold. -/
theorem Unwinding.work {activity : Activity} (h : Unwinding stage pc (.working phase) v)
    (ha : Workflow.activity pc = some activity) (hs : Spec activity phase v v' t) :
    Unwinding stage pc t v' ∧ t = .answered .done := by
  have hfirst : ∀ {p : Prop}, Achieves (.working phase) p → phase = .first := by
    rintro p (he | ⟨he, -⟩)
    · exact Attempt.working.inj he
    · cases he
  cases pc with
  | beginCancel expected reason void release =>
    cases ha
    obtain ⟨⟨rfl, hvoid, hrel⟩, hst, hach⟩ := h
    cases hfirst hach
    rcases hs with ⟨-, rfl, rfl⟩ | ⟨hne, hnc, -, -⟩
    · exact ⟨⟨⟨rfl, hvoid, hrel⟩, .inr rfl, .inr ⟨rfl, rfl⟩⟩, rfl⟩
    · exact absurd hst (not_or_intro hne hnc)
  | voidAuthorization reason release =>
    cases ha
    obtain ⟨hrel, hst, hach⟩ := h
    cases hfirst hach
    obtain ⟨rfl, rfl⟩ := hs
    exact ⟨⟨hrel, hst, .inr ⟨rfl, rfl⟩⟩, rfl⟩
  | releaseReservation reason =>
    cases ha
    obtain ⟨hst, hvoid, hach⟩ := h
    cases hfirst hach
    obtain ⟨rfl, rfl⟩ := hs
    by_cases hact : v.reservation = some .active
    · refine ⟨⟨?_, ?_, .inr ⟨rfl, ?_⟩⟩, rfl⟩ <;> simp [finished, hact, hst]
      simpa [finished, hact, Voided] using hvoid
    · rw [finished, if_neg hact]
      exact ⟨⟨hst, hvoid, .inr ⟨rfl, hact⟩⟩, rfl⟩
  | finishCancel reason =>
    cases ha
    obtain ⟨hst, hvoid, hres, hach⟩ := h
    cases hfirst hach
    rcases hs with ⟨-, rfl, rfl⟩ | ⟨hnc, hnd, -, -⟩
    · exact ⟨⟨.inr rfl, hvoid, hres, .inr ⟨rfl, rfl⟩⟩, rfl⟩
    · exact absurd hst (not_or_intro hnc hnd)
  | returned result => cases ha
  | _ => exact h.elim

/-- The answer takes the unwind to its next step. -/
theorem Unwinding.report {answer : Answer} (h : Unwinding stage pc (.answered answer) v)
    (ha : Workflow.activity pc ≠ none) :
    Unwinding stage (afterAnswer pc answer) (.working .first) v := by
  have hdone : ∀ {p : Prop}, Achieves (.answered answer) p → p := by
    rintro p (he | ⟨-, hp⟩)
    · cases he
    · exact hp
  cases pc with
  | beginCancel expected reason void release =>
    obtain ⟨⟨-, rfl, rfl⟩, -, hach⟩ := h
    have hst := hdone hach
    by_cases hstage : stage = .placed
    · subst hstage
      exact ⟨hst, fun hne => absurd rfl hne, .inl rfl⟩
    · have hvoid : (stage != .placed) = true := by simpa using hstage
      simp only [afterAnswer, unwind, hvoid, if_true]
      exact ⟨rfl, hst, .inl rfl⟩
  | voidAuthorization reason release =>
    obtain ⟨rfl, hst, hach⟩ := h
    exact ⟨hst, fun _ => hdone hach, .inl rfl⟩
  | releaseReservation reason =>
    obtain ⟨hst, hvoid, hach⟩ := h
    exact ⟨.inl hst, hvoid, hdone hach, .inl rfl⟩
  | finishCancel reason =>
    obtain ⟨-, hvoid, hres, hach⟩ := h
    exact ⟨rfl, hdone hach, hres, hvoid⟩
  | returned result => exact absurd rfl ha
  | _ => exact h.elim

/-- **One move of the workflow** keeps the unwind on its way. -/
theorem Unwinding.own {w w' : World} {i i' : Inst Pos Phase Answer} {m : Move Input Signal Event}
    (h : Unwinding stage i.pos.pc i.attempt (view order w))
    (hm : move flow (worker cfg) order w i m = some (w', i')) :
    Unwinding stage i'.pos.pc i'.attempt (view order w') := by
  rcases move_cases hm with ⟨input, a, phase, attempt, -, ha, hp, hw, rfl⟩ | ⟨rfl, hrest⟩
  · rw [hp] at h
    exact (h.work ha (work_spec hw)).1
  · rcases hrest with ⟨-, -, rfl⟩ | ⟨a, answer, -, ha, hr, rfl⟩ | ⟨a, -, ha, hr, -⟩ |
      ⟨a, -, -, hb, rfl⟩ | ⟨s, -, rfl⟩ | ⟨e, pos, -, he, -⟩
    · exact h.restart
    · rw [hr] at h
      exact h.report (by rw [show Workflow.activity i.pos.pc = some a from ha]; simp)
    · -- an unwind on its way is never refused
      rw [hr] at h
      cases hpc : i.pos.pc with
      | returned result => simp [flow, hpc, Workflow.activity] at ha
      | _ => rw [hpc] at h; simp [Unwinding, Achieves] at h
    · cases hpc : i.pos.pc with
      | forward stage => rw [hpc] at h; exact h.elim
      | _ => simp [flow, isForward, hpc] at hb
    · simpa [flow] using h
    · have hnone : ∀ e, afterWait i.pos e = none := by
        intro e
        cases hpc : i.pos.pc <;> rw [hpc] at h <;> first | exact h.elim | skip
        all_goals cases e <;> simp [afterWait, hpc]
      rw [show flow.event i.pos e = none from hnone e] at he
      cases he

/-- The environment, the reaper included, keeps the unwind on its way. -/
theorem Unwinding.env {e : EnvEvent} {w w' : World} (h : Unwinding stage pc t (view order w))
    (hsole : ∀ m now, e ≠ .otherMove order m now) (he : environment cfg e w = some w') :
    Unwinding stage pc t (view order w') := by
  rcases environment_spec order he with hv | ⟨m, now, rfl, -, -⟩ | ⟨rest, -, -, hv⟩
  · rw [hv]; exact h
  · exact absurd rfl (hsole m now)
  · rw [hv]
    by_cases hact : (view order w).reservation = some .active
    · rw [finished, if_pos hact]
      have hexp : some Inventory.ReservationStatus.expired ≠ some .active := (by rintro ⟨⟩)
      cases pc with
      | releaseReservation =>
        refine ⟨h.1, h.2.1, ?_⟩
        rcases h.2.2 with ht | ⟨ht, -⟩
        · exact .inl ht
        · exact .inr ⟨ht, hexp⟩
      | finishCancel => exact absurd hact h.2.2.1
      | returned result =>
        cases result with
        | cancelled => exact absurd hact (Unwound.released h)
        | settled => exact h.elim
      | beginCancel => exact h
      | voidAuthorization => exact h
      | _ => exact h.elim
    · rw [finished, if_neg hact]
      exact h

theorem unwinding_of_run {s s' : System} {is : List SagaLabel}
    (h : Run (step cfg) (SoleWriter order) s is s')
    (h0 : Unwinding stage (s.insts order).pos.pc (s.insts order).attempt (view order s.world)) :
    Unwinding stage (s'.insts order).pos.pc (s'.insts order).attempt (view order s'.world) := by
  refine family_invariant order (view order)
    (fun v (i : Inst Pos Phase Answer) => Unwinding stage i.pos.pc i.attempt v)
    (fun j a phase input w w' attempt hj hw => work_frame hw (Ne.symm hj))
    (fun t m w' i' hI _ hm => hI.own hm) (fun t e w' hI hok he => ?_) h0 h
  refine hI.env (fun m now heq => ?_) he
  subst heq
  exact hok rfl

/-! ### Progress -/

/-- How many activities an unwind has before it. -/
def remaining : Pc → ℕ
  | .beginCancel _ _ _ _ => 4
  | .voidAuthorization _ _ => 3
  | .releaseReservation _ => 2
  | .finishCancel _ => 1
  | _ => 0

theorem remaining_afterAnswer {answer : Answer} (h : Unwinding stage pc t v)
    (ha : Workflow.activity pc ≠ none) : remaining (afterAnswer pc answer) < remaining pc := by
  cases pc with
  | beginCancel expected reason void release =>
    cases void <;> cases release <;> simp [afterAnswer, unwind, unwindRelease, remaining]
  | voidAuthorization reason release =>
    cases release <;> simp [afterAnswer, unwindRelease, remaining]
  | releaseReservation => simp [afterAnswer, remaining]
  | finishCancel => simp [afterAnswer, remaining]
  | returned result => exact absurd rfl ha
  | _ => exact h.elim

theorem soleWriter_flow (s : System) (m : Move Input Signal Event) :
    SoleWriter order s (.flow order m) := trivial

/-- The next activity of an unwind can be answered. -/
theorem unwind_advances (cfg : Config) {s : System} {activity : Activity}
    (h : Unwinding stage (s.insts order).pos.pc (s.insts order).attempt (view order s.world))
    (ha : Workflow.activity (s.insts order).pos.pc = some activity) :
    ∃ js u, Run (step cfg) (SoleWriter order) s js u ∧
      (u.insts order).pos.pc = afterAnswer (s.insts order).pos.pc .done := by
  have hattempt : (s.insts order).attempt = .working .first ∨
      (s.insts order).attempt = .answered .done := by
    cases hpc : (s.insts order).pos.pc <;> rw [hpc] at h ha <;>
      first | exact h.elim | (simp [Workflow.activity] at ha; done) | skip
    · exact h.2.2.imp_right And.left
    · exact h.2.2.imp_right And.left
    · exact h.2.2.imp_right And.left
    · exact h.2.2.2.imp_right And.left
  rcases hattempt with hfirst | hdone
  · obtain ⟨w', t', hw⟩ := work_first cfg order activity ⟨0, .ok⟩ s.world
    rw [hfirst] at h
    obtain ⟨-, rfl⟩ := h.work ha (work_spec hw)
    exact ⟨_, _, run_report (W := worker cfg) ha hfirst hw soleWriter_flow, by simp [flow]⟩
  · exact ⟨_, _, .cons (soleWriter_flow s .report) (familyStep_report ha hdone) .nil, by simp [flow]⟩

/-- An unwind on its way can end. -/
theorem unwind_ends {s : System}
    (h : Unwinding stage (s.insts order).pos.pc (s.insts order).attempt (view order s.world)) :
    ∃ js u, Run (step cfg) (SoleWriter order) s js u ∧ (u.insts order).pos.pc.Closed := by
  -- by the number of activities that are left
  induction hn : remaining (s.insts order).pos.pc using Nat.strong_induction_on generalizing s with
  | _ n ih =>
    cases ha : Workflow.activity (s.insts order).pos.pc with
    | none =>
      refine ⟨[], s, .nil, ?_⟩
      cases hpc : (s.insts order).pos.pc with
      | returned result => exact .inl ⟨result, rfl⟩
      | _ => rw [hpc] at h ha; first | exact h.elim | cases ha
    | some activity =>
      obtain ⟨js, u, hrun, hpc⟩ := unwind_advances cfg h ha
      have hlt : remaining (u.insts order).pos.pc < n := by
        rw [hpc, ← hn]
        exact remaining_afterAnswer h (by rw [ha]; simp)
      obtain ⟨ks, v, hrest, hclosed⟩ := ih _ hlt (unwinding_of_run hrun h) rfl
      exact ⟨js ++ ks, v, hrun.append hrest, hclosed⟩

theorem lands_of_unwinding {s : System}
    (h : Unwinding stage (s.insts order).pos.pc (s.insts order).attempt (view order s.world)) :
    Lands cfg order stage s := by
  intro is t hrun
  have ht := unwinding_of_run hrun h
  refine ⟨fun hclosed => ?_, unwind_ends ht⟩
  rcases hclosed with ⟨result, hpc⟩ | hpc
  · rw [hpc] at ht ⊢
    cases result with
    | cancelled => exact ht
    | settled => exact ht.elim
  · rw [hpc] at ht
    exact ht.elim

/-! ### The theorem -/

/-- The state that the deadline leaves behind. -/
theorem expire_forward {s s' : System} (hpc : (s.insts order).pos.pc = .forward stage)
    (hexp : step cfg s (.flow order .expire) = some s') :
    s'.world = s.world ∧ (s'.insts order).pos.pc = afterDeadline stage ∧
      (s'.insts order).attempt = .working .first := by
  obtain ⟨⟨w', i'⟩, hm, rfl⟩ := Option.map_eq_some_iff.mp hexp
  simp only [move] at hm
  split at hm
  · cases hm
    refine ⟨rfl, ?_, ?_⟩
    · simp [flow, hpc]
    · simp [worker]
  · cases hm

/-- An unwind that does not find the row at its stage dies. -/
theorem unwind_dies {s : System} (hpc : (s.insts order).pos.pc = afterDeadline stage)
    (hfirst : (s.insts order).attempt = .working .first)
    (hst : (view order s.world).status = some (next stage)) : ¬ Lands cfg order stage s := by
  intro hlands
  have ha : flow.pending (s.insts order).pos =
      some (.beginCancel stage.status .systemTimeout) := by
    simp [flow, hpc, afterDeadline, Workflow.activity]
  obtain ⟨w', t', hw⟩ := work_first cfg order (.beginCancel stage.status .systemTimeout) ⟨0, .ok⟩
    s.world
  have hrefused : t' = .refused := by
    rcases work_spec hw with ⟨hfrom, -, -⟩ | ⟨-, -, -, ht⟩
    · rw [hst] at hfrom
      cases stage <;> simp [next, Stage.status] at hfrom
    · exact ht
  subst hrefused
  have hrun : Run (step cfg) (SoleWriter order) s [.flow order (.work ⟨0, .ok⟩), .flow order .report]
      ⟨w', Function.update s.insts order
        (.enter (worker cfg) (flow.refused (s.insts order).pos))⟩ :=
    run_refused ha hfirst hw soleWriter_flow
  have hend := (hlands _ _ hrun).1 (.inr (by simp [flow]))
  have hreturned := hend.returned
  simp [flow] at hreturned

/-- **The unwind after a deadline lands exactly when the row is at the workflow's
stage**: no attempt of the step that ran out of time had moved it. -/
theorem unwind_lands_iff {is : List SagaLabel} {s s' : System}
    (h : Run (step cfg) (SoleWriter order) .empty is s)
    (hpc : (s.insts order).pos.pc = .forward stage)
    (hexp : step cfg s (.flow order .expire) = some s') :
    Lands cfg order stage s' ↔ statusOf (s.world.orders order) = some stage.status := by
  obtain ⟨hworld, hpc', hfirst⟩ := expire_forward hpc hexp
  have hview : view order s'.world = view order s.world := by rw [hworld]
  constructor
  · intro hlands
    by_contra hne
    have hfits := fits_of_run h.forget order
    rw [hpc] at hfits
    have hst : (view order s'.world).status = some (next stage) := by
      rw [hview]
      exact hfits.1.resolve_left hne
    exact unwind_dies hpc' hfirst hst hlands
  · intro hst
    refine lands_of_unwinding ?_
    rw [hpc', hfirst, hview]
    exact ⟨⟨rfl, rfl, rfl⟩, .inl hst, .inl rfl⟩

end

/-! ### Runs -/

def oneLine : Config where
  cart _ := ⟨"h", "r", [⟨"i", 2⟩], 700, "EUR", "tok"⟩

/-- The order is placed and its reservation made; then the answer of the reservation
is lost, before or after the row was moved. -/
def lostAnswer (order : OrderId) (moved : Bool) : List SagaLabel :=
  [.env (.setStock "r" "i" 5), .flow order (.work ⟨0, .ok⟩), .flow order .report,
    .flow order (.work ⟨0, .ok⟩)] ++
  (if moved then [.flow order (.work ⟨0, .ok⟩)] else []) ++ [.flow order .lose]

/-- The first reservation attempt is lost before the row was moved: the unwind lands. -/
theorem unwind_lands_iff_placed : ∃ s s',
    step oneLine s (.flow "o" .expire) = some s' ∧ Lands oneLine "o" .placed s' ∧
      (view "o" s.world).reservation = some .active := by
  obtain ⟨s, hs, hp⟩ : ∃ s,
      Run (step oneLine) (SoleWriter "o") .empty (lostAnswer "o" false) s ∧
      decide ((s.insts "o").pos.pc = .forward .placed ∧
        (step oneLine s (.flow "o" .expire)).isSome = true ∧
        statusOf (s.world.orders "o") = some .placed ∧
        (view "o" s.world).reservation = some .active) = true :=
    exists_run_of_execOk (by decide)
  obtain ⟨hpc, hsome, hst, hres⟩ := of_decide_eq_true hp
  obtain ⟨s', hs'⟩ := Option.isSome_iff_exists.mp hsome
  exact ⟨s, s', hs', (unwind_lands_iff hs hpc hs').mpr hst, hres⟩

/-- **The row was moved before the answer was lost**: BEGIN_CANCEL expects PLACED and
finds VALIDATED, the workflow fails, and the reservation stays active. -/
theorem unwind_not_landed : ∃ s,
    Run (step oneLine) (SoleWriter "o") .empty
      (lostAnswer "o" true ++
        [.flow "o" .expire, .flow "o" (.work ⟨300, .ok⟩), .flow "o" .report]) s ∧
    (s.insts "o").pos.pc = .failed ∧ statusOf (s.world.orders "o") = some .validated ∧
    (view "o" s.world).reservation = some .active := by
  obtain ⟨s, hs, hp⟩ : ∃ s,
      Run (step oneLine) (SoleWriter "o") .empty
        (lostAnswer "o" true ++
          [.flow "o" .expire, .flow "o" (.work ⟨300, .ok⟩), .flow "o" .report]) s ∧
      decide ((s.insts "o").pos.pc = .failed ∧ statusOf (s.world.orders "o") = some .validated ∧
        (view "o" s.world).reservation = some .active) = true :=
    exists_run_of_execOk (by decide)
  exact ⟨s, hs, of_decide_eq_true hp⟩

end Saga

end Order
