/-
Where the row is when the workflow is somewhere.

The workflow never reads the row; it knows what its activities answered.  `Fits`
is what it may conclude, await by await, although answers are lost and attempts
repeated, and although the kitchen and the delivery move the row on their own.

* `Fits.own` — every move of the workflow keeps it;
* `Fits.other` — so does every move of the environment;
* `fits_of_run` — hence it holds in every reachable state.
-/
import SmartFoodOps.Order.Saga

open Machine Durable
open Dispatch (OrderId)

namespace Order

namespace Saga

open Workflow

/-- The status that the activity of the stage moves the row to. -/
def next : Stage → OrderStatus
  | .placed => .validated
  | .validated => .paymentCleared
  | .paymentCleared => .confirmed

/-- From the acceptance to the delivery. -/
def Live (st : Option OrderStatus) : Prop :=
  st = some .accepted ∨ st = some .preparing ∨ st = some .ready ∨ st = some .pickedUp ∨
    st = some .delivered

/-- The statuses that a row can have while the workflow stands at `pc`. -/
def Fits (pc : Pc) (t : Attempt Phase Answer) (st : Option OrderStatus) : Prop :=
  match pc with
  | .createOrder => (st = none ∨ st = some .placed) ∧ (∀ a, t = .answered a → st = some .placed)
  | .forward stage => (st = some stage.status ∨ st = some (next stage)) ∧
    (t = .answered .ok → st = some (next stage)) ∧
    (stage = .paymentCleared → ∀ a, t = .answered a → st = some .confirmed)
  | .beginCancel _ _ _ _ => ∀ a, t = .answered a → st = some .cancelling
  | .voidAuthorization _ _ | .releaseReservation _ | .drainChild | .cancelDispatch =>
    st = some .cancelling
  | .finishCancel _ => (st = some .cancelling ∨ st = some .cancelled) ∧
    (∀ a, t = .answered a → st = some .cancelled)
  | .awaitDecision | .startChild => st = some .confirmed
  | .markAccepted => (st = some .confirmed ∨ Live st) ∧ (∀ a, t = .answered a → Live st)
  | .awaitDelivery | .awaitChild | .capturePayment => Live st
  | .customerCancel | .noRiderCancel => (Live st ∨ st = some .cancelling) ∧
    (t = .answered .ok → st = some .cancelling) ∧ (∀ a, a ≠ .ok → t = .answered a → Live st)
  | .settleOrder => (Live st ∨ st = some .settled) ∧ (∀ a, t = .answered a → st = some .settled)
  | .returned .cancelled => st = some .cancelled
  | .returned .settled => st = some .settled
  | .failed => True

section

variable {cfg : Config} {pc : Pc} {t : Attempt Phase Answer} {st st' : Option OrderStatus}
  {v v' : View} {phase : Phase}

theorem live_other (m : OtherMove) (h : st = some m.expected) : Live (some m.target) := by
  cases m <;> simp [Live, OtherMove.target]

/-- An answered move has reached its target. -/
theorem Moves.answered {expected target : OrderStatus} {answer a : Answer}
    (h : Moves expected target answer v v' t) (ha : t = .answered a) :
    v'.status = some target ∧ a = answer := by
  rcases h with ⟨-, rfl, ht⟩ | ⟨-, -, -, ht⟩
  · rw [ha] at ht
    cases ht
    exact ⟨rfl, rfl⟩
  · rw [ha] at ht
    cases ht

/-- A move leaves the row where it was or takes it to its target. -/
theorem Moves.status {expected target : OrderStatus} {answer : Answer}
    (h : Moves expected target answer v v' t) :
    v'.status = v.status ∨ v'.status = some target := by
  rcases h with ⟨-, rfl, -⟩ | ⟨-, -, rfl, -⟩
  · exact .inr rfl
  · exact .inl rfl

/-- A lost or fresh attempt has concluded nothing. -/
theorem Fits.restart (h : Fits pc t st) : Fits pc (.working .first) st := by
  cases pc with
  | returned result => cases result <;> exact h
  | _ => simp_all [Fits]

/-- The environment moves the row within what fits. -/
theorem Fits.other (m : OtherMove) (h : Fits pc t st) (hst : st = some m.expected) :
    Fits pc t (some m.target) := by
  have hlive := live_other m hst
  subst hst
  cases pc with
  | createOrder => cases m <;> simp [Fits, OtherMove.expected] at h
  | forward stage => cases m <;> cases stage <;> simp [Fits, OtherMove.expected, next, Stage.status] at h
  | returned result => cases result <;> cases m <;> simp [Fits, OtherMove.expected] at h
  | beginCancel =>
    intro a ha
    have := h a ha
    cases m <;> simp [OtherMove.expected] at this
  | finishCancel => cases m <;> simp [Fits, OtherMove.expected] at h
  | markAccepted => exact ⟨.inr hlive, fun _ _ => hlive⟩
  | awaitDelivery => exact hlive
  | awaitChild => exact hlive
  | capturePayment => exact hlive
  | customerCancel | noRiderCancel =>
    refine ⟨.inl hlive, fun ha => ?_, fun _ _ _ => hlive⟩
    have := h.2.1 ha
    cases m <;> simp [OtherMove.expected] at this
  | settleOrder =>
    refine ⟨.inl hlive, fun a ha => ?_⟩
    have := h.2 a ha
    cases m <;> simp [OtherMove.expected] at this
  | failed => trivial
  | _ => cases m <;> simp [Fits, OtherMove.expected] at h

/-- One step of an attempt keeps what fits. -/
theorem Fits.work {activity : Activity} (h : Fits pc (.working phase) v.status)
    (ha : Workflow.activity pc = some activity) (hs : Spec activity phase v v' t) :
    Fits pc t v'.status := by
  -- the activity follows from the await, the shape of its step from the phase
  cases pc with
  | createOrder =>
    cases ha
    cases phase with
    | second => exact hs.elim
    | first =>
      obtain ⟨rfl, rfl⟩ := hs
      have hst : v.status.or (some .placed) = some .placed := by
        rcases h.1 with h | h <;> simp [h]
      exact ⟨.inr hst, fun _ _ => hst⟩
  | forward stage =>
    cases ha
    have hmove : ∀ expected target answer, stage.status = expected → next stage = target →
        Moves expected target answer v v' t → Fits (.forward stage) t v'.status := by
      rintro expected target answer rfl rfl hm
      refine ⟨?_, fun ht => (hm.answered ht).1, fun hstage a ht => ?_⟩
      · rcases hm.status with hv | hv
        · rw [hv]; exact h.1
        · exact .inr hv
      · rw [(hm.answered ht).1, hstage]
        rfl
    cases stage <;> cases phase
    · rcases hs with ⟨rfl, rfl⟩ | ⟨rfl, -, rfl | rfl⟩
      · exact ⟨h.1, nofun, nofun⟩
      · exact ⟨h.1, nofun, nofun⟩
      · exact ⟨h.1, nofun, nofun⟩
    · exact hmove _ _ _ rfl rfl hs
    · obtain ⟨rfl, rfl | rfl | rfl⟩ := hs
      · exact ⟨h.1, nofun, nofun⟩
      · exact ⟨h.1, nofun, nofun⟩
      · exact ⟨h.1, nofun, nofun⟩
    · exact hmove _ _ _ rfl rfl hs
    · exact hmove _ _ _ rfl rfl hs
    · exact hs.elim
  | beginCancel expected reason void release =>
    cases ha
    cases phase with
    | second => exact hs.elim
    | first => exact fun a ht => (Moves.answered hs ht).1
  | voidAuthorization reason release =>
    cases ha
    cases phase with
    | second => exact hs.elim
    | first => obtain ⟨rfl, -⟩ := hs; exact h
  | releaseReservation reason =>
    cases ha
    cases phase with
    | second => exact hs.elim
    | first =>
      obtain ⟨rfl, -⟩ := hs
      unfold finished
      split <;> exact h
  | finishCancel reason =>
    cases ha
    cases phase with
    | second => exact hs.elim
    | first =>
      refine ⟨?_, fun a ht => (Moves.answered hs ht).1⟩
      rcases Moves.status hs with hv | hv
      · rw [hv]; exact h.1
      · exact .inr hv
  | markAccepted =>
    cases ha
    cases phase with
    | second => exact hs.elim
    | first =>
      have htarget : v'.status = some .accepted → Live v'.status := fun hv => by simp [hv, Live]
      refine ⟨?_, fun a ht => htarget (Moves.answered hs ht).1⟩
      rcases Moves.status hs with hv | hv
      · rw [hv]; exact h.1
      · exact .inr (htarget hv)
  | customerCancel | noRiderCancel =>
    cases ha
    cases phase with
    | second => exact hs.elim
    | first =>
      rcases hs with ⟨-, rfl, rfl⟩ | ⟨hnot, rfl, rfl⟩
      · exact ⟨.inr rfl, fun _ => rfl, fun a hne ht => by cases ht; exact absurd rfl hne⟩
      · have hlive : Live v'.status := h.1.resolve_right fun hc => (hnot _ hc).2 rfl
        exact ⟨.inl hlive, nofun, fun _ _ _ => hlive⟩
  | cancelDispatch =>
    cases ha
    cases phase with
    | second => exact hs.elim
    | first => obtain ⟨rfl, -⟩ := hs; exact h
  | capturePayment =>
    cases ha
    cases phase with
    | second => exact hs.elim
    | first => obtain ⟨rfl, -⟩ := hs; exact h
  | settleOrder =>
    cases ha
    cases phase with
    | first =>
      obtain ⟨rfl, rfl⟩ := hs
      have hst : (finished .consumed false v).status = v.status := by
        unfold finished
        split <;> rfl
      rw [hst]
      exact ⟨h.1, nofun⟩
    | second =>
      refine ⟨?_, fun a ht => (Moves.answered hs ht).1⟩
      rcases Moves.status hs with hv | hv
      · rw [hv]; exact h.1
      · exact .inr hv
  | awaitDecision => cases ha
  | startChild => cases ha
  | awaitDelivery => cases ha
  | drainChild => cases ha
  | awaitChild => cases ha
  | returned result => cases ha
  | failed => cases ha

theorem fits_unwind {reason : CancelReason} {void release : Bool} (h : st = some .cancelling) :
    Fits (unwind reason void release) (.working .first) st := by
  cases void <;> cases release <;> simp [unwind, unwindRelease, Fits, h]

theorem fits_beginCancel {expected : OrderStatus} {reason : CancelReason} {void release : Bool} :
    Fits (.beginCancel expected reason void release) (.working .first) st := by
  intro a ht
  cases ht

/-- The result of an activity leads to an await that fits. -/
theorem Fits.report {answer : Answer} (h : Fits pc (.answered answer) st)
    (ha : Workflow.activity pc ≠ none) : Fits (afterAnswer pc answer) (.working .first) st := by
  cases pc with
  | createOrder =>
    have hst := h.2 answer rfl
    exact ⟨.inl hst, by rintro ⟨⟩, by rintro ⟨⟩⟩
  | forward stage =>
    obtain ⟨-, hok, hconf⟩ := h
    cases stage with
    | paymentCleared => exact hconf rfl answer rfl
    | placed =>
      by_cases hans : answer = .ok
      · subst hans
        exact ⟨.inl (hok rfl), by rintro ⟨⟩, by rintro ⟨⟩⟩
      · simp only [afterAnswer, afterForward, hans, if_false]
        exact fits_beginCancel
    | validated =>
      by_cases hans : answer = .ok
      · subst hans
        exact ⟨.inl (hok rfl), by rintro ⟨⟩, by rintro - _ ⟨⟩⟩
      · simp only [afterAnswer, afterForward, hans, if_false]
        exact fits_beginCancel
  | beginCancel expected reason void release => exact fits_unwind (h answer rfl)
  | voidAuthorization reason release =>
    have hc : st = some .cancelling := h
    cases release <;> simp [afterAnswer, unwindRelease, Fits, hc]
  | releaseReservation reason => exact ⟨.inl h, by rintro _ ⟨⟩⟩
  | finishCancel reason => exact h.2 answer rfl
  | markAccepted => exact h.2 answer rfl
  | customerCancel | noRiderCancel =>
    by_cases hans : answer = .ok
    · subst hans
      exact h.2.1 rfl
    · simp only [afterAnswer, hans, if_false]
      exact h.2.2 answer hans rfl
  | cancelDispatch => exact fits_unwind h
  | capturePayment => exact ⟨.inl h, by rintro _ ⟨⟩⟩
  | settleOrder => exact h.2 answer rfl
  | awaitDecision => exact absurd rfl ha
  | startChild => exact absurd rfl ha
  | awaitDelivery => exact absurd rfl ha
  | drainChild => exact absurd rfl ha
  | awaitChild => exact absurd rfl ha
  | returned result => exact absurd rfl ha
  | failed => exact absurd rfl ha

/-- The deadline leads to an await that fits. -/
theorem Fits.expire (h : isForward pc) :
    ∃ stage, pc = .forward stage ∧ Fits (afterDeadline stage) (.working .first) st := by
  cases pc with
  | forward stage => exact ⟨stage, rfl, fits_beginCancel⟩
  | _ => cases h

theorem fits_afterChild (how : ChildEnd) (h : Live st) :
    Fits (afterChild how) (.working .first) st := by
  cases how with
  | delivered => exact h
  | noRider => exact ⟨.inl h, nofun, nofun⟩
  | failed => trivial
  | cancelled => trivial

/-- The end of a wait leads to an await that fits. -/
theorem Fits.event {p p' : Pos} {e : Event} (h : Fits p.pc t st) (he : afterWait p e = some p') :
    Fits p'.pc (.working .first) st := by
  cases (ends he).1 with
  | begins hpc hnext =>
    rw [hpc] at h
    rw [hnext]
    exact h
  | cancels _ hnext => exact hnext ▸ fits_beginCancel
  | asked hpc hnext =>
    rw [hpc] at h
    rw [hnext]
    exact ⟨.inl h, nofun, nofun⟩
  | child hpc _ hnext =>
    rw [hnext]
    rcases hpc with hpc | hpc <;> rw [hpc] at h <;> exact fits_afterChild _ h
  | drained hpc _ hnext =>
    rw [hpc] at h
    rw [hnext]
    exact h
  | started hpc _ hnext =>
    rw [hpc] at h
    rw [hnext]
    exact ⟨.inl h, nofun⟩

/-- **One move of the workflow** keeps what fits. -/
theorem Fits.own {order : OrderId} {w w' : World} {i i' : Inst Pos Phase Answer}
    {m : Move Input Signal Event} (h : Fits i.pos.pc i.attempt (view order w).status)
    (hm : move flow (worker cfg) order w i m = some (w', i')) :
    Fits i'.pos.pc i'.attempt (view order w').status := by
  rcases move_cases hm with ⟨input, a, phase, attempt, -, ha, hp, hw, rfl⟩ | ⟨rfl, hrest⟩
  · rw [hp] at h
    exact h.work ha (work_spec hw)
  · rcases hrest with ⟨-, -, rfl⟩ | ⟨a, answer, -, ha, hr, rfl⟩ | ⟨a, -, -, -, rfl⟩ |
      ⟨a, -, -, hb, rfl⟩ | ⟨s, -, rfl⟩ | ⟨e, pos, -, he, rfl⟩
    · exact h.restart
    · rw [hr] at h
      exact h.report (by rw [show Workflow.activity i.pos.pc = some a from ha]; simp)
    · trivial
    · obtain ⟨stage, hpc, hfits⟩ := Fits.expire hb
      simpa [flow, worker, hpc] using hfits
    · simpa [flow] using h
    · exact h.event he

theorem fits_of_run {is : List SagaLabel} {s : System} (h : Run (step cfg) Always .empty is s)
    (order : OrderId) :
    Fits (s.insts order).pos.pc (s.insts order).attempt (view order s.world).status := by
  have h0 : Fits .createOrder (.working .first) none := ⟨.inl rfl, nofun⟩
  refine family_invariant order (view order)
    (fun v (i : Inst Pos Phase Answer) => Fits i.pos.pc i.attempt v.status)
    (fun j a phase input w w' attempt hj hw => work_frame hw (Ne.symm hj))
    (fun t m w' i' hI _ hm => hI.own hm) (fun t e w' hI _ he => ?_) h0 h
  rcases environment_spec order he with hv | ⟨m, now, -, hst, hv⟩ | ⟨rest, -, -, hv⟩
  · rw [hv]; exact hI
  · rw [hv]; exact hI.other m hst
  · rw [hv, finished]
    split <;> exact hI

end

end Saga

end Order
