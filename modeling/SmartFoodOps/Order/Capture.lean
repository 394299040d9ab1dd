/-
Capture only after delivery, and never both money outcomes.

Four parties race for the end of an order: the customer's cancel, the deadline for a
rider, the courier and the kitchen.  The row referees between the first three, and the
workflow only knows what its activities and its child answered.

* `Rides` — what the child's await says about the row;
* `Refereed` — what the row says about both workflows: a child without a rider leaves
  the row where the cancel wins, and only a delivered child leads to the capture;
* `refereed_of_run` — it holds in every reachable state;
* `capture_after_delivery` — hence what was executed, and what the workflow returned.
-/
import SmartFoodOps.Order.Joint

open Machine Durable
open Dispatch (OrderId RiderId)

namespace Order

namespace Joint

open Saga (Config Phase Input OtherMove View Spec Fits Moves)

/-! ### The row, from the child -/

/-- The courier has the food, or has had it. -/
def PickedUp (st : Option OrderStatus) : Prop :=
  st = some .pickedUp ∨ st = some .delivered ∨ st = some .settled

instance (st : Option OrderStatus) : Decidable (PickedUp st) :=
  inferInstanceAs (Decidable (_ ∨ _ ∨ _))

/-- Where the row is while the child stands at `pc`. -/
def Rides (pc : Delivery.Pc) (t : Attempt Unit Delivery.Answer) (st : Option OrderStatus) : Prop :=
  match pc with
  | .markPickedUp _ => (¬ PickedUp st ∨ st = some .pickedUp) ∧
    (∀ a, t = .answered a → st = some .pickedUp)
  | .awaitDelivered _ => st = some .pickedUp
  | .markDelivered => (st = some .pickedUp ∨ st = some .delivered) ∧
    (∀ a, t = .answered a → st = some .delivered)
  | .returned .delivered => st = some .delivered ∨ st = some .settled
  | .cancelDispatch | .failed | .cancelled => True
  | _ => ¬ PickedUp st

section

variable {pc : Delivery.Pc} {t : Attempt Unit Delivery.Answer} {st st' : Option OrderStatus}
  {order : OrderId} {w w' : Saga.World}

/-- A lost attempt has concluded nothing. -/
theorem Rides.restart (h : Rides pc t st) : Rides pc (.working ()) st := by
  cases pc with
  | markPickedUp => exact ⟨h.1, nofun⟩
  | markDelivered => exact ⟨h.1, nofun⟩
  | returned result => cases result <;> exact h
  | _ => exact h

/-- Before the pickup the row may move. -/
theorem Rides.early (h : Rides pc t st) (hst : ¬ PickedUp st) (hst' : ¬ PickedUp st') :
    Rides pc t st' := by
  have hne : ∀ x, st = some x → PickedUp (some x) → False := fun x hx hp => hst (hx ▸ hp)
  cases pc with
  | markPickedUp => exact ⟨.inl hst', fun a ha => (hne _ (h.2 a ha) (.inl rfl)).elim⟩
  | awaitDelivered => exact (hne _ h (.inl rfl)).elim
  | markDelivered =>
    rcases h.1 with he | he
    · exact (hne _ he (.inl rfl)).elim
    · exact (hne _ he (.inr (.inl rfl))).elim
  | returned result =>
    cases result with
    | noRider => exact hst'
    | delivered =>
      rcases h with he | he
      · exact (hne _ he (.inr (.inl rfl))).elim
      · exact (hne _ he (.inr (.inr rfl))).elim
  | cancelDispatch | failed | cancelled => trivial
  | _ => exact hst'

/-- A mark moves the row to its target, or is refused. -/
theorem mark_spec {m : OtherMove} {now : ℕ} (h : mark w order m now = (w', t)) :
    (statusOf (w.orders order) = some m.expected ∨ statusOf (w.orders order) = some m.target) ∧
        statusOf (w'.orders order) = some m.target ∧ t = .answered .done ∨
      w' = w ∧ t = .refused ∧ statusOf (w.orders order) ≠ some m.expected ∧
        statusOf (w.orders order) ≠ some m.target := by
  unfold mark at h
  split at h
  · next row applied hok =>
    cases h
    obtain ⟨htarget, hfrom⟩ := transition_ok hok
    refine .inl ⟨hfrom.imp id And.left, ?_, rfl⟩
    rw [show (w.setOrder order row).orders order = row from Function.update_self ..]
    exact htarget
  · next e herr =>
    cases h
    exact .inr ⟨rfl, rfl, transition_error herr⟩

/-- An attempt at any other activity is answered, and leaves the status. -/
theorem childWork_other {a : Delivery.Activity} {phase : Unit} {input : ChildInput}
    (h : childWork order a phase input w = some (w', t)) (hp : a ≠ .markPickedUp)
    (hd : a ≠ .markDelivered) :
    statusOf (w'.orders order) = statusOf (w.orders order) ∧ ∃ answer, t = .answered answer := by
  cases a with
  | markPickedUp => exact absurd rfl hp
  | markDelivered => exact absurd rfl hd
  | recordRider rider =>
    obtain ⟨rfl, rfl⟩ := Prod.mk.inj (Option.some.inj h)
    refine ⟨?_, _, rfl⟩
    rw [show (w.setOrder order (recordRider (w.orders order) rider)).orders order =
      recordRider (w.orders order) rider from Function.update_self ..]
    cases w.orders order <;> rfl
  | findAndOffer | expireOffer | unassignStalled | cancelDispatch =>
    obtain ⟨rfl, rfl⟩ := Prod.mk.inj (Option.some.inj h)
    exact ⟨rfl, _, rfl⟩

/-- Where the attempts at marks are made. -/
theorem pc_of_markPickedUp {p : Delivery.Pos} (h : Delivery.activity p = some .markPickedUp) :
    ∃ rider, p.pc = .markPickedUp rider := by
  unfold Delivery.activity at h
  split at h <;> cases h
  exact ⟨_, ‹_›⟩

theorem pc_of_markDelivered {p : Delivery.Pos} (h : Delivery.activity p = some .markDelivered) :
    p.pc = .markDelivered := by
  unfold Delivery.activity at h
  split at h <;> cases h
  assumption

/-- An await that is no mark and no end says only whether the courier has the food. -/
theorem Rides.answer_free {p : Delivery.Pos} {a : Delivery.Activity}
    (ha : Delivery.activity p = some a) (hp : a ≠ .markPickedUp) (hd : a ≠ .markDelivered)
    (h : Rides p.pc t st) (t' : Attempt Unit Delivery.Answer) : Rides p.pc t' st := by
  unfold Delivery.activity at ha
  split at ha <;> cases ha
  case h_5 => exact absurd rfl hp
  case h_6 => exact absurd rfl hd
  all_goals
    next hpc => rw [hpc] at h ⊢; exact h

/-- One attempt of the child. -/
theorem Rides.work {p : Delivery.Pos} {a : Delivery.Activity} {phase : Unit}
    {input : ChildInput} (ha : Delivery.activity p = some a)
    (h : Rides p.pc (.working phase) (statusOf (w.orders order)))
    (hw : childWork order a phase input w = some (w', t)) :
    Rides p.pc t (statusOf (w'.orders order)) := by
  by_cases hp : a = .markPickedUp
  · subst hp
    obtain ⟨rider, hpc⟩ := pc_of_markPickedUp ha
    rw [hpc] at h ⊢
    rcases mark_spec (Option.some.inj hw) with ⟨-, htarget, -⟩ | ⟨rfl, rfl, -⟩
    · exact ⟨.inr htarget, fun _ _ => htarget⟩
    · exact ⟨h.1, nofun⟩
  by_cases hd : a = .markDelivered
  · subst hd
    rw [pc_of_markDelivered ha] at h ⊢
    rcases mark_spec (Option.some.inj hw) with ⟨-, htarget, -⟩ | ⟨rfl, rfl, -⟩
    · exact ⟨.inr htarget, fun _ _ => htarget⟩
    · exact ⟨h.1, nofun⟩
  obtain ⟨hst, -⟩ := childWork_other hw hp hd
  rw [hst]
  exact h.answer_free ha hp hd t

theorem rides_nextRound {p : Delivery.Pos} (h : ¬ PickedUp st) :
    Rides (Delivery.nextRound p).pc (.working ()) st := by
  rcases Delivery.nextRound_pc p with hpc | hpc <;> rw [hpc] <;> exact h

/-- The result of an activity leads the child to an await that says as much. -/
theorem Rides.report {p : Delivery.Pos} {answer : Delivery.Answer}
    (ha : Delivery.activity p ≠ none) (h : Rides p.pc (.answered answer) st) :
    Rides (Delivery.afterAnswer p answer).pc (.working ()) st := by
  unfold Delivery.activity at ha
  unfold Delivery.afterAnswer
  cases hpc : p.pc with
  | findAndOffer =>
    rw [hpc] at h
    have h : ¬ PickedUp st := h
    simp only
    split <;> exact h
  | expireOffer offer candidate =>
    rw [hpc] at h
    simp only
    split
    · exact h
    · exact rides_nextRound h
  | recordRider rider => rw [hpc] at h; exact h
  | unassignStalled rider =>
    rw [hpc] at h
    have h : ¬ PickedUp st := h
    simp only
    split
    · exact ⟨.inl h, nofun⟩
    · exact rides_nextRound h
  | markPickedUp rider => rw [hpc] at h; exact h.2 answer rfl
  | markDelivered => rw [hpc] at h; exact .inl (h.2 answer rfl)
  | cancelDispatch => trivial
  | _ => simp [hpc] at ha

/-- So does the end of a wait. -/
theorem Rides.wait {p p' : Delivery.Pos} {e : Delivery.Event} (h : Rides p.pc t st)
    (he : Delivery.afterWait p e = some p') : Rides p'.pc (.working ()) st := by
  cases e with
  | wake =>
    simp only [Delivery.afterWait] at he
    split at he
    · next hpc =>
      rw [hpc] at h
      split at he <;> cases he
      exact rides_nextRound h
    · next hpc =>
      rw [hpc] at h
      obtain ⟨rider, -, rfl⟩ := Option.map_eq_some_iff.mp he
      exact h
    · next hpc =>
      rw [hpc] at h
      split at he <;> cases he
      exact ⟨.inl h, (by simp)⟩
    · next hpc =>
      rw [hpc] at h
      split at he <;> cases he
      exact ⟨.inl h, (by simp)⟩
    · cases he
  | timeout =>
    simp only [Delivery.afterWait] at he
    split at he <;> cases he <;> next hpc => rw [hpc] at h; first | exact rides_nextRound h | exact h
  | cancel =>
    rw [Delivery.cancel_pc he]
    split <;> trivial

/-- **One move of the child** keeps what its await says about the row. -/
theorem Rides.own {i i' : Child} {m : Move ChildInput Delivery.News Delivery.Event}
    (h : Rides i.pos.pc i.attempt (statusOf (w.orders order)))
    (hm : move Delivery.flow childWorker order w i m = some (w', i')) :
    Rides i'.pos.pc i'.attempt (statusOf (w'.orders order)) := by
  rcases move_cases hm with ⟨input, a, phase, t, -, ha, hp, hw, rfl⟩ | ⟨rfl, hrest⟩
  · have hw : childWork order a phase input w = some (w', t) := hw
    rw [hp] at h
    exact h.work ha hw
  · rcases hrest with ⟨-, -, rfl⟩ | ⟨a, answer, -, ha, hr, rfl⟩ | ⟨a, -, -, -, rfl⟩ |
      ⟨a, -, -, hb, -⟩ | ⟨n, -, rfl⟩ | ⟨e, pos, -, he, rfl⟩
    · exact h.restart
    · rw [hr] at h
      exact h.report (by rw [show Delivery.activity i.pos = some a from ha]; simp)
    · show Rides (Delivery.afterFailure i.pos).pc _ _
      unfold Delivery.afterFailure
      split <;> trivial
    · cases hb
    · show Rides (Delivery.note i.pos n).pc i.attempt _
      rw [Delivery.note_pc]
      exact h
    · exact h.wait he

/-- A child that has ended stays as it is. -/
theorem endOf_own {i i' : Child} {m : Move ChildInput Delivery.News Delivery.Event}
    {how : Workflow.ChildEnd} (h : endOf i.pos.pc = some how)
    (hm : move Delivery.flow childWorker order w i m = some (w', i')) :
    i'.pos.pc = i.pos.pc ∧ w' = w := by
  have hnone : Delivery.flow.pending i.pos = none ∧ ∀ e, Delivery.afterWait i.pos e = none := by
    constructor
    · show Delivery.activity i.pos = none
      unfold Delivery.activity
      split <;> first | rfl | (next hpc => rw [hpc] at h; cases h)
    · intro e
      cases hpc : i.pos.pc <;> rw [hpc] at h <;> first | cases h | skip
      all_goals cases e <;> simp [Delivery.afterWait, Delivery.cancel, hpc]
  rcases move_cases hm with ⟨input, a, phase, t, -, ha, -⟩ | ⟨rfl, hrest⟩
  · rw [hnone.1] at ha
    cases ha
  · rcases hrest with ⟨-, ⟨a, ha⟩, -⟩ | ⟨a, answer, -, ha, -⟩ | ⟨a, -, ha, -⟩ | ⟨a, -, ha, -⟩ |
      ⟨n, -, rfl⟩ | ⟨e, pos, -, he, -⟩
    · rw [hnone.1] at ha; cases ha
    · rw [hnone.1] at ha; cases ha
    · rw [hnone.1] at ha; cases ha
    · rw [hnone.1] at ha; cases ha
    · exact ⟨Delivery.note_pc i.pos n, rfl⟩
    · rw [show Delivery.flow.event i.pos e = none from hnone.2 e] at he
      cases he

end

/-! ### The row, from the parent -/

section

variable {cfg : Config} {pc : Workflow.Pc} {t : Attempt Phase Workflow.Answer} {v v' : View}
  {phase : Phase}

/-- A guarded move applies, or leaves the row. -/
theorem moves_status {expected target : OrderStatus} {answer : Workflow.Answer}
    (h : Moves expected target answer v v' t) :
    v'.status = v.status ∨ v.status = some expected ∧ v'.status = some target := by
  rcases h with ⟨hfrom | hat, rfl, -⟩ | ⟨-, -, rfl, -⟩
  · exact .inr ⟨hfrom, rfl⟩
  · exact .inl hat.symm
  · exact .inl rfl

/-- What an attempt of the parent does to a row: nothing, a move before the pickup, or
the settlement of a delivered order. -/
theorem work_status {a : Workflow.Activity} (hexp : Lifecycle.Expects pc)
    (ha : Workflow.activity pc = some a) (hs : Spec a phase v v' t) :
    v'.status = v.status ∨ (¬ PickedUp v.status ∧ ¬ PickedUp v'.status) ∨
      (pc = .settleOrder ∧ v.status = some .delivered ∧ v'.status = some .settled) := by
  have hmove : ∀ {expected target answer}, Moves expected target answer v v' t →
      ¬ PickedUp (some expected) → ¬ PickedUp (some target) →
      v'.status = v.status ∨ (¬ PickedUp v.status ∧ ¬ PickedUp v'.status) ∨
        (pc = .settleOrder ∧ v.status = some .delivered ∧ v'.status = some .settled) := by
    intro expected target answer hm he ht
    rcases moves_status hm with hst | ⟨hfrom, hto⟩
    · exact .inl hst
    · exact .inr (.inl ⟨by rw [hfrom]; exact he, by rw [hto]; exact ht⟩)
  have hfinished : ∀ target returned,
      (Saga.finished target returned v).status = v.status := by
    intro target returned
    unfold Saga.finished
    split <;> rfl
  cases a <;> cases phase <;> try exact hs.elim
  case createOrder.first =>
    obtain ⟨rfl, -⟩ := hs
    cases hv : v.status with
    | none => exact .inr (.inl ⟨by simp [PickedUp], by simp [PickedUp]⟩)
    | some st => exact .inl (by simp)
  case validateAndReserve.first =>
    rcases hs with ⟨rfl, -⟩ | ⟨rfl, -⟩ <;> exact .inl rfl
  case validateAndReserve.second => exact hmove hs (by decide) (by decide)
  case authorizePayment.first => obtain ⟨rfl, -⟩ := hs; exact .inl rfl
  case authorizePayment.second => exact hmove hs (by decide) (by decide)
  case confirmOrder.first => exact hmove hs (by decide) (by decide)
  case markAccepted.first => exact hmove hs (by decide) (by decide)
  case beginCancel.first expected reason =>
    obtain ⟨void, release, rfl⟩ := Lifecycle.pc_of_beginCancel ha
    obtain ⟨from_, rfl⟩ := hexp
    exact hmove hs (by cases from_ <;> decide) (by decide)
  case tryBeginCancel.first reason =>
    rcases hs with ⟨⟨st, hst, hin⟩, rfl, -⟩ | ⟨-, rfl, -⟩
    · refine .inr (.inl ⟨?_, by simp [PickedUp]⟩)
      rw [hst]
      rcases hin with hin | rfl
      · revert hin
        cases st <;> decide
      · decide
    · exact .inl rfl
  case voidAuthorization.first => obtain ⟨rfl, -⟩ := hs; exact .inl rfl
  case releaseReservation.first => obtain ⟨rfl, -⟩ := hs; exact .inl (hfinished _ _)
  case finishCancel.first => exact hmove hs (by decide) (by decide)
  case cancelDispatch.first => obtain ⟨rfl, -⟩ := hs; exact .inl rfl
  case capturePayment.first => obtain ⟨rfl, -⟩ := hs; exact .inl rfl
  case settleOrder.first => obtain ⟨rfl, -⟩ := hs; exact .inl (hfinished _ _)
  case settleOrder.second =>
    have hpc : pc = .settleOrder := by
      cases pc <;> first | rfl | cases ha | skip
      next stage => cases stage <;> cases ha
    rcases moves_status hs with hst | hst
    · exact .inl hst
    · exact .inr (.inr ⟨hpc, hst⟩)

theorem forward_of_deadline (h : Workflow.isForward pc = true) : ∃ stage, pc = .forward stage := by
  cases pc with
  | forward stage => exact ⟨stage, rfl⟩
  | _ => cases h

/-- The workflow takes the money, or is about to. -/
def Charging (pc : Workflow.Pc) : Prop := pc = .capturePayment ∨ pc = .settleOrder

/-- An answer leads to the charge only from the charge, or when no rider was found and
the courier was faster. -/
theorem charging_afterAnswer {answer : Workflow.Answer} (ha : Workflow.activity pc ≠ none)
    (h : Charging (Workflow.afterAnswer pc answer)) :
    Charging pc ∨ pc = .noRiderCancel ∧ answer ≠ .ok := by
  have hleads := Workflow.leads answer ha
  generalize Workflow.afterAnswer pc answer = next at h hleads
  cases hleads with
  | captured => exact .inl (.inl rfl)
  | ridden hans => exact .inr ⟨rfl, hans⟩
  | _ => simp [Charging] at h

/-- No answer leads to the cancel of an order without a rider. -/
theorem afterAnswer_ne_noRider {answer : Workflow.Answer} (ha : Workflow.activity pc ≠ none) :
    Workflow.afterAnswer pc answer ≠ .noRiderCancel := by
  have hleads := Workflow.leads answer ha
  generalize Workflow.afterAnswer pc answer = next at hleads ⊢
  cases hleads <;> nofun

/-- A wait leads to the charge, or to the cancel without a rider, by the end of the child
only. -/
theorem child_of_wait {p p' : Workflow.Pos} {e : Workflow.Event}
    (he : Workflow.afterWait p e = some p') (h : Charging p'.pc ∨ p'.pc = .noRiderCancel) :
    ∃ how, p'.child = some how ∧ p.child = some how ∧ p'.pc = Workflow.afterChild how := by
  obtain ⟨hends, hsame, -⟩ := Workflow.ends he
  cases hends with
  | child _ hchild hnext => exact ⟨_, hsame.trans hchild, hchild, hnext⟩
  | _ => simp_all [Charging]

end

/-! ### Both workflows -/

/-- What the row says about the two workflows. -/
structure Refereed (parent : Parent) (child : Option Child) (st : Option OrderStatus) : Prop where
  unborn : child = none → ¬ PickedUp st
  rides : ∀ i, child = some i → Rides i.pos.pc i.attempt st
  told : ∀ how, parent.pos.child = some how → ∃ i, child = some i ∧ endOf i.pos.pc = some how
  charging : Charging parent.pos.pc → parent.pos.child = some .delivered
  noRider : parent.pos.pc = .noRiderCancel → parent.pos.child = some .noRider ∧
    ∀ a, parent.attempt = .answered a → a = .ok

section

variable {cfg : Config} {s u : System} {l : Label} {order : OrderId} {parent parent' : Parent}
  {child : Option Child} {st st' : Option OrderStatus}

theorem rides_of_endOf {pc : Delivery.Pc} {t : Attempt Unit Delivery.Answer}
    {how : Workflow.ChildEnd} (h : Rides pc t st) (he : endOf pc = some how) :
    (how = .delivered → st = some .delivered ∨ st = some .settled) ∧
      (how = .noRider → ¬ PickedUp st) := by
  unfold endOf at he
  split at he <;> cases he <;> simp_all [Rides]

/-- A delivered child has left the row at DELIVERED. -/
theorem Refereed.delivered (h : Refereed parent child st) (hc : Charging parent.pos.pc) :
    st = some .delivered ∨ st = some .settled := by
  obtain ⟨i, hi, he⟩ := h.told _ (h.charging hc)
  exact (rides_of_endOf (h.rides i hi) he).1 rfl

/-- **The capture finds the row DELIVERED.** -/
theorem Refereed.capture (h : Refereed parent child st)
    (hf : Fits parent.pos.pc parent.attempt st) (hpc : parent.pos.pc = .capturePayment) :
    st = some .delivered := by
  rw [hpc] at hf
  rcases h.delivered (.inl hpc) with hst | hst
  · exact hst
  · rw [hst] at hf
    simp [Fits, Saga.Live] at hf

/-- Moves of the row before the pickup. -/
theorem Refereed.early (h : Refereed parent child st) (hst : ¬ PickedUp st)
    (hst' : ¬ PickedUp st') : Refereed parent child st' :=
  ⟨fun _ => hst', fun i hi => (h.rides i hi).early hst hst', h.told, h.charging, h.noRider⟩

/-- The settlement of a delivered order. -/
theorem Refereed.settle (h : Refereed parent child (some .delivered))
    (hpc : parent.pos.pc = .settleOrder) : Refereed parent child (some .settled) := by
  obtain ⟨j, hj, he⟩ := h.told _ (h.charging (.inr hpc))
  refine ⟨fun hn => ?_, fun i hi => ?_, h.told, h.charging, h.noRider⟩
  · rw [hn] at hj
    cases hj
  · obtain rfl : j = i := Option.some.inj (hj.symm.trans hi)
    have hend : j.pos.pc = .returned .delivered := by
      cases hpc' : j.pos.pc <;> rw [hpc'] at he <;> first | cases he | skip
      next result => cases result <;> first | rfl | cases he
    rw [hend]
    exact .inr rfl

/-- The cancel for want of a rider wins against everybody but a courier. -/
theorem Refereed.noRider_answered {v v' : View} {phase : Phase} {t : Attempt Phase Workflow.Answer}
    {reason : CancelReason} (h : Refereed parent child v.status)
    (hf : Fits .noRiderCancel (.working phase) v.status) (hpc : parent.pos.pc = .noRiderCancel)
    (hs : Spec (.tryBeginCancel reason) phase v v' t) :
    ∀ a, t = .answered a → a = .ok := by
  rintro a rfl
  cases phase with
  | second => exact hs.elim
  | first =>
    rcases hs with ⟨-, -, ht⟩ | ⟨hnot, -, -⟩
    · exact Attempt.answered.inj ht
    · obtain ⟨i, hi, he⟩ := h.told _ (h.noRider hpc).1
      have hpick : ¬ PickedUp v.status := (rides_of_endOf (h.rides i hi) he).2 rfl
      -- a live row that is not picked up is one that the guard allows
      exfalso
      rcases hf.1 with (hl | hl | hl | hl | hl) | hc
      · exact (hnot _ hl).1 (by decide)
      · exact (hnot _ hl).1 (by decide)
      · exact (hnot _ hl).1 (by decide)
      · exact hpick (.inl hl)
      · exact hpick (.inr (.inl hl))
      · exact (hnot _ hc).2 rfl

/-- **One move of the parent** keeps the two workflows and the row together. -/
theorem Refereed.own {w w' : Saga.World} {m : Move Input Workflow.Signal Workflow.Event}
    (h : Refereed parent child (Saga.view order w).status)
    (hf : Fits parent.pos.pc parent.attempt (Saga.view order w).status)
    (hexp : Lifecycle.Expects parent.pos.pc) (htold : Told child m)
    (hm : move Workflow.flow (Saga.worker cfg) order w parent m = some (w', parent')) :
    Refereed parent' child (Saga.view order w').status := by
  rcases move_cases hm with ⟨input, a, phase, t, -, ha, hp, hw, rfl⟩ | ⟨rfl, hrest⟩
  · have hs := Saga.work_spec hw
    rw [hp] at hf
    have hrow : Refereed parent child (Saga.view order w').status := by
      rcases work_status hexp ha hs with he | ⟨hst, hst'⟩ | ⟨hpc, hst, hst'⟩
      · rw [he]; exact h
      · exact h.early hst hst'
      · rw [hst] at h
        rw [hst']
        exact h.settle hpc
    refine ⟨hrow.unborn, hrow.rides, hrow.told, hrow.charging, fun hpc => ⟨(h.noRider hpc).1, ?_⟩⟩
    have hpc : parent.pos.pc = .noRiderCancel := hpc
    have hact : a = .tryBeginCancel .noRiderAvailable := by
      have ha : Workflow.activity parent.pos.pc = some a := ha
      rw [hpc] at ha
      exact (Option.some.inj ha).symm
    subst hact
    rw [hpc] at hf
    exact h.noRider_answered hf hpc hs
  · have hkeep : ∀ {pos : Workflow.Pos}, pos.child = parent.pos.child →
        (Charging pos.pc → parent.pos.child = some .delivered) →
        (pos.pc = .noRiderCancel → parent.pos.child = some .noRider) →
        Refereed (.enter (Saga.worker cfg) pos) child (Saga.view order w').status := by
      intro pos hc hcharge hno
      refine ⟨h.unborn, h.rides, fun how hh => h.told how (hc ▸ hh), fun hh => ?_, fun hh => ?_⟩
      · exact hc.trans (hcharge hh)
      · exact ⟨hc.trans (hno hh), (by simp)⟩
    rcases hrest with ⟨-, -, rfl⟩ | ⟨a, answer, -, ha, hr, rfl⟩ | ⟨a, -, -, -, rfl⟩ |
      ⟨a, -, -, hb, rfl⟩ | ⟨n, rfl, rfl⟩ | ⟨e, pos, -, he, rfl⟩
    · exact hkeep rfl h.charging fun hpc => (h.noRider hpc).1
    · have ha : Workflow.activity parent.pos.pc ≠ none := by
        rw [show Workflow.activity parent.pos.pc = some a from ha]
        simp
      refine hkeep rfl (fun hc => ?_) fun hno => absurd hno (afterAnswer_ne_noRider ha)
      rcases charging_afterAnswer ha hc with hc | ⟨hpc, hne⟩
      · exact h.charging hc
      · exact absurd ((h.noRider hpc).2 _ hr) hne
    · exact hkeep rfl (by rintro (hc | hc) <;> cases hc) (by rintro ⟨⟩)
    · obtain ⟨stage, hpc⟩ := forward_of_deadline hb
      have hexp : Workflow.flow.expired parent.pos =
          { parent.pos with pc := Workflow.afterDeadline stage } := by
        simp [Workflow.flow, hpc]
      rw [hexp]
      exact hkeep rfl (by rintro (hc | hc) <;> cases hc) (by rintro ⟨⟩)
    · have hpc : (Workflow.onSignal parent.pos n).pc = parent.pos.pc := Workflow.onSignal_pc _ _
      have hchild : ∀ how, parent.pos.child = some how →
          (Workflow.onSignal parent.pos n).child = some how := by
        intro how hh
        cases n <;> simp [Workflow.onSignal, hh]
      refine ⟨h.unborn, h.rides, fun how hh => ?_, fun hc => ?_, fun hno => ?_⟩
      · cases n with
        | childEnded how' =>
          cases hc : parent.pos.child with
          | some how'' =>
            obtain rfl : how'' = how := by
              have hh : (Workflow.onSignal parent.pos (.childEnded how')).child = some how := hh
              simpa [Workflow.onSignal, hc] using hh
            exact h.told _ hc
          | none =>
            obtain rfl : how' = how := by
              have hh : (Workflow.onSignal parent.pos (.childEnded how')).child = some how := hh
              simpa [Workflow.onSignal, hc] using hh
            obtain ⟨i, hi, he⟩ := Option.bind_eq_some_iff.mp htold
            exact ⟨i, hi, he⟩
        | restaurantDecision verdict => exact h.told how hh
        | cancelRequested => exact h.told how hh
      · refine hchild _ (h.charging ?_)
        rwa [← hpc]
      · have hno : parent.pos.pc = .noRiderCancel := hpc.symm.trans hno
        exact ⟨hchild _ (h.noRider hno).1, (h.noRider hno).2⟩
    · refine hkeep (Workflow.ends he).2.1 (fun hc => ?_) fun hno => ?_
      · obtain ⟨how, -, hh, hpc⟩ := child_of_wait he (.inl hc)
        rw [hh]
        rw [hpc] at hc
        cases how <;> simp [Workflow.afterChild, Charging] at hc
        rfl
      · obtain ⟨how, -, hh, hpc⟩ := child_of_wait he (.inr hno)
        rw [hh]
        rw [hpc] at hno
        cases how <;> simp [Workflow.afterChild] at hno
        rfl

/-- **One step** keeps the two workflows and the row together. -/
theorem Refereed.step (h : Refereed (s.parent order) (s.children order) (s.status order))
    (hf : Fits (s.parent order).pos.pc (s.parent order).attempt (s.status order))
    (hexp : Lifecycle.Expects (s.parent order).pos.pc) (hs : step cfg s l = some u) :
    Refereed (u.parent order) (u.children order) (u.status order) := by
  rcases seen order hs with
    ⟨m, i', -, htold, hm, hp, hc, -⟩ | ⟨m, i, i', -, hi, -, hm, hp, hc, -⟩ |
    ⟨-, hpc, hnone, hst, hp, hc, -⟩ | ⟨m, hm, hs, hst, hp, hc, -⟩ |
    ⟨pid, -, -, hst, hp, hc, -⟩ | ⟨hst, hp, hc, -⟩
  · subst hp
    rw [hc]
    exact h.own hf hexp htold hm
  · rw [hp, hc]
    refine ⟨nofun, fun j hj => ?_, fun how hh => ?_, h.charging, h.noRider⟩
    · obtain rfl : i' = j := Option.some.inj hj
      exact (h.rides i hi).own hm
    · obtain ⟨j, hj, he⟩ := h.told how hh
      obtain rfl : i = j := Option.some.inj (hi.symm.trans hj)
      exact ⟨i', rfl, by rw [(endOf_own he hm).1]; exact he⟩
  · rw [hp, hc, hst]
    refine ⟨nofun, fun j hj => ?_, fun how hh => ?_, h.charging, h.noRider⟩
    · obtain rfl : Inst.enter childWorker {} = j := Option.some.inj hj
      exact h.unborn hnone
    · obtain ⟨j, hj, -⟩ := h.told how hh
      rw [hnone] at hj
      cases hj
  · rw [hp, hc, hst]
    rw [hs] at h
    refine h.early ?_ ?_ <;> rcases hm with rfl | rfl <;> decide
  · rw [hp, hc, hst]
    exact ⟨h.unborn, h.rides, h.told, h.charging, h.noRider⟩
  · rw [hp, hc, hst]
    exact h

theorem fits_of_run {ok : System → Label → Prop} {is : List Label}
    (h : Run (step cfg) ok .empty is s) (order : OrderId) :
    Fits (s.parent order).pos.pc (s.parent order).attempt (s.status order) ∧
      Lifecycle.Expects (s.parent order).pos.pc := by
  obtain ⟨js, hjs⟩ := saga_run h
  exact ⟨Saga.fits_of_run hjs order, Lifecycle.expects_of_run hjs order⟩

theorem refereed_of_run {ok : System → Label → Prop} {is : List Label}
    (h : Run (step cfg) ok .empty is s) (order : OrderId) :
    Refereed (s.parent order) (s.children order) (s.status order) := by
  induction h with
  | nil =>
    have hnone : System.empty.status order = none := rfl
    have hchild : System.empty.children order = none := rfl
    have hpos : (System.empty.parent order).pos = {} := rfl
    rw [hnone, hchild]
    refine ⟨fun _ => by decide, fun i h => ?_, fun how h => ?_, fun hc => ?_, fun h => ?_⟩
    · cases h
    · rw [hpos] at h
      cases h
    · rw [hpos] at hc
      rcases hc with hc | hc <;> cases hc
    · rw [hpos] at h
      cases h
  | snoc hrun _ hs ih =>
    obtain ⟨hf, hexp⟩ := fits_of_run hrun order
    exact ih.step hf hexp hs

end

/-! ### What was executed -/

/-- The awaits that the workflow can stand at, once it has executed the activity. -/
def Stands (a : Workflow.Activity) (pc : Workflow.Pc) : Prop :=
  match a with
  | .capturePayment =>
    pc = .capturePayment ∨ pc = .settleOrder ∨ pc = .returned .settled ∨ pc = .failed
  | .settleOrder => pc = .settleOrder ∨ pc = .returned .settled ∨ pc = .failed
  | .voidAuthorization => (∃ reason release, pc = .voidAuthorization reason release) ∨
    (∃ reason, pc = .releaseReservation reason) ∨ (∃ reason, pc = .finishCancel reason) ∨
    pc = .returned .cancelled ∨ pc = .failed
  | _ => True

section

variable {cfg : Config} {s u : System} {l : Label} {order : OrderId} {a : Workflow.Activity}
  {pc : Workflow.Pc}

theorem stands_failed : Stands a .failed := by
  cases a <;> simp [Stands]

/-- The activity that is executed stands where it is awaited. -/
theorem stands_self (h : Workflow.activity pc = some a) : Stands a pc := by
  cases pc with
  | forward stage => cases stage <;> cases h <;> trivial
  | capturePayment => cases h; exact .inl rfl
  | settleOrder => cases h; exact .inl rfl
  | voidAuthorization reason release => cases h; exact .inl ⟨reason, release, rfl⟩
  | _ => cases h <;> trivial

theorem Stands.afterAnswer {answer : Workflow.Answer} (h : Stands a pc) :
    Stands a (Workflow.afterAnswer pc answer) := by
  cases a with
  | capturePayment =>
    rcases h with rfl | rfl | rfl | rfl
    · exact .inr (.inl rfl)
    · exact .inr (.inr (.inl rfl))
    · exact .inr (.inr (.inl rfl))
    · exact .inr (.inr (.inr rfl))
  | settleOrder =>
    rcases h with rfl | rfl | rfl
    · exact .inr (.inl rfl)
    · exact .inr (.inl rfl)
    · exact .inr (.inr rfl)
  | voidAuthorization =>
    rcases h with ⟨reason, release, rfl⟩ | ⟨reason, rfl⟩ | ⟨reason, rfl⟩ | rfl | rfl
    · cases release
      · exact .inr (.inr (.inl ⟨reason, rfl⟩))
      · exact .inr (.inl ⟨reason, rfl⟩)
    · exact .inr (.inr (.inl ⟨reason, rfl⟩))
    · exact .inr (.inr (.inr (.inl rfl)))
    · exact .inr (.inr (.inr (.inl rfl)))
    · exact .inr (.inr (.inr (.inr rfl)))
  | _ => trivial

/-- Where the workflow waits, or has a deadline, none of these has been executed. -/
theorem stands_of_wait {p p' : Workflow.Pos} {e : Workflow.Event}
    (he : Workflow.afterWait p e = some p') (h : Stands a p.pc) : Stands a p'.pc := by
  cases a with
  | capturePayment | settleOrder | voidAuthorization =>
    cases (Workflow.ends he).1 with
    | child hpc => rcases hpc with hpc | hpc <;> simp [Stands, hpc] at h
    | _ => simp_all [Stands]
  | _ => trivial

theorem stands_of_deadline {stage : Workflow.Stage} (h : Stands a (.forward stage)) :
    Stands a (Workflow.afterDeadline stage) := by
  cases a <;> simp [Stands] at h ⊢

/-- The activity has been executed, once at least. -/
def Done (log : List (Workflow.Activity × Option OrderStatus)) (a : Workflow.Activity) : Prop :=
  ∃ st, (a, st) ∈ log

theorem done_append {log new : List (Workflow.Activity × Option OrderStatus)} :
    Done (log ++ new) a ↔ Done log a ∨ Done new a := by
  simp only [Done, List.mem_append, exists_or]

/-- What the history says about the workflow. -/
structure Performed (parent : Parent) (log : List (Workflow.Activity × Option OrderStatus)) :
    Prop where
  stands : ∀ a, Done log a → Stands a parent.pos.pc
  once : ¬ (Done log .capturePayment ∧ Done log .voidAuthorization)
  begun : ∀ a, Workflow.activity parent.pos.pc = some a → parent.attempt ≠ .working .first →
    Done log a
  paid : parent.pos.pc = .settleOrder ∨ parent.pos.pc = .returned .settled →
    Done log .capturePayment
  settled : parent.pos.pc = .returned .settled → Done log .settleOrder

/-- The next activity is executed. -/
theorem Performed.execute {parent : Parent} {log : List (Workflow.Activity × Option OrderStatus)}
    {st : Option OrderStatus} (h : Performed parent log)
    (ha : Workflow.activity parent.pos.pc = some a) (t : Attempt Phase Workflow.Answer) :
    Performed ⟨parent.pos, t⟩ (log ++ [(a, st)]) := by
  have hnew : ∀ {b}, Done [(a, st)] b ↔ b = a := by
    intro b
    simp [Done]
  have hold : ∀ {b}, Done log b → Done (log ++ [(a, st)]) b := fun hd => done_append.mpr (.inl hd)
  have hpc := stands_self ha
  refine ⟨fun b hb => ?_, ?_, fun b hb _ => ?_, fun hp => hold (h.paid hp), fun hp =>
    hold (h.settled hp)⟩
  · rcases done_append.mp hb with hb | hb
    · exact h.stands b hb
    · rw [hnew.mp hb]
      exact hpc
  · rintro ⟨hc, hv⟩
    -- an await after the one excludes the other
    have hsc : Stands .capturePayment parent.pos.pc := by
      rcases done_append.mp hc with hc | hc
      · exact h.stands _ hc
      · rw [hnew.mp hc]
        exact hpc
    have hsv : Stands .voidAuthorization parent.pos.pc := by
      rcases done_append.mp hv with hv | hv
      · exact h.stands _ hv
      · rw [hnew.mp hv]
        exact hpc
    rcases hsc with hsc | hsc | hsc | hsc <;> rw [hsc] at hsv ha <;> simp [Stands] at hsv
    cases ha
  · obtain rfl : a = b := Option.some.inj (ha.symm.trans hb)
    exact done_append.mpr (.inr (hnew.mpr rfl))

/-- The workflow goes on to another await, or makes a new attempt. -/
theorem Performed.enter {parent : Parent} {pos : Workflow.Pos}
    {log : List (Workflow.Activity × Option OrderStatus)} (h : Performed parent log)
    (hst : ∀ a, Stands a parent.pos.pc → Stands a pos.pc)
    (hpaid : pos.pc = .settleOrder ∨ pos.pc = .returned .settled → Done log .capturePayment)
    (hset : pos.pc = .returned .settled → Done log .settleOrder) :
    Performed (.enter (Saga.worker cfg) pos) log :=
  ⟨fun a ha => hst a (h.stands a ha), h.once, fun _ _ hne => absurd rfl hne, hpaid, hset⟩

/-- What the workflow has been told does not matter. -/
theorem Performed.same_pc {parent : Parent} {pos : Workflow.Pos}
    {log : List (Workflow.Activity × Option OrderStatus)} (h : Performed parent log)
    (hpc : pos.pc = parent.pos.pc) : Performed ⟨pos, parent.attempt⟩ log := by
  constructor
  · rw [hpc]; exact h.stands
  · exact h.once
  · rw [hpc]; exact h.begun
  · rw [hpc]; exact h.paid
  · rw [hpc]; exact h.settled

/-- An answer leads to the settlement from the capture, and to its end from there. -/
theorem settling_of_answer {answer : Workflow.Answer} (ha : Workflow.activity pc ≠ none) :
    (Workflow.afterAnswer pc answer = .settleOrder → pc = .capturePayment) ∧
      (Workflow.afterAnswer pc answer = .returned .settled → pc = .settleOrder) := by
  have hleads := Workflow.leads answer ha
  generalize Workflow.afterAnswer pc answer = next at hleads ⊢
  cases hleads <;> simp

/-- No wait ends in the settlement. -/
theorem settling_of_wait {p p' : Workflow.Pos} {e : Workflow.Event}
    (he : Workflow.afterWait p e = some p') :
    p'.pc ≠ .settleOrder ∧ p'.pc ≠ .returned .settled := by
  cases (Workflow.ends he).1 with
  | @child how _ _ hnext => cases how <;> simp [hnext, Workflow.afterChild]
  | _ => simp [*]

/-- **One move of the parent** adds to the history what it executes. -/
theorem Performed.own {w w' : Saga.World} {parent' : Parent}
    {m : Move Input Workflow.Signal Workflow.Event}
    (h : Performed (s.parent order) (s.executed order))
    (hm : move Workflow.flow (Saga.worker cfg) order w (s.parent order) m = some (w', parent')) :
    Performed parent' (s.executed order ++ executes s order m) := by
  rcases move_cases hm with ⟨input, a, phase, t, rfl, ha, hp, -, rfl⟩ | ⟨-, hrest⟩
  · have ha : Workflow.activity (s.parent order).pos.pc = some a := ha
    cases phase with
    | first =>
      rw [show executes s order (.work input) = [(a, s.status order)] by simp [executes, ha, hp]]
      exact h.execute ha t
    | second =>
      rw [show executes s order (.work input) = [] by simp [executes, ha, hp], List.append_nil]
      refine ⟨h.stands, h.once, fun b hb _ => h.begun b hb ?_, h.paid, h.settled⟩
      rw [hp]
      simp
  · rcases hrest with ⟨rfl, -, rfl⟩ | ⟨a, answer, rfl, ha, hr, rfl⟩ | ⟨a, rfl, -, -, rfl⟩ |
      ⟨a, rfl, -, hb, rfl⟩ | ⟨n, rfl, rfl⟩ | ⟨e, pos, rfl, he, rfl⟩ <;>
      simp only [executes, List.append_nil]
    · exact h.enter (fun _ => id) h.paid h.settled
    · have ha : Workflow.activity (s.parent order).pos.pc = some a := ha
      have hdone : Done (s.executed order) a := h.begun a ha (by rw [hr]; simp)
      have hne : Workflow.activity (s.parent order).pos.pc ≠ none := by rw [ha]; simp
      obtain ⟨hsettle, hreturn⟩ : (Workflow.afterAnswer _ answer = .settleOrder → _) ∧ _ :=
        settling_of_answer hne
      have hact : ∀ {pc}, (s.parent order).pos.pc = pc → Workflow.activity pc = some a :=
        fun hpc => hpc ▸ ha
      refine h.enter (fun _ hs => hs.afterAnswer) (fun hpc => ?_) fun hpc => ?_
      · rcases hpc with hpc | hpc
        · obtain rfl : Workflow.Activity.capturePayment = a :=
            Option.some.inj (hact (hsettle hpc))
          exact hdone
        · exact h.paid (.inl (hreturn hpc))
      · obtain rfl : Workflow.Activity.settleOrder = a := Option.some.inj (hact (hreturn hpc))
        exact hdone
    · exact h.enter (fun _ _ => stands_failed) (by rintro (hc | hc) <;> cases hc) (by rintro ⟨⟩)
    · obtain ⟨stage, hpc⟩ := forward_of_deadline hb
      have hexp : Workflow.flow.expired (s.parent order).pos =
          { (s.parent order).pos with pc := Workflow.afterDeadline stage } := by
        simp [Workflow.flow, hpc]
      rw [hexp]
      refine h.enter (fun b hs => ?_) (by rintro (hc | hc) <;> cases hc) (by rintro ⟨⟩)
      rw [hpc] at hs
      exact stands_of_deadline hs
    · exact h.same_pc (Workflow.onSignal_pc _ _)
    · have hnot := settling_of_wait he
      exact h.enter (fun _ hs => stands_of_wait he hs)
        (fun hc => hc.elim (fun hc => absurd hc hnot.1) fun hc => absurd hc hnot.2)
        fun hc => absurd hc hnot.2

theorem performed_of_run {ok : System → Label → Prop} {is : List Label}
    (h : Run (step cfg) ok .empty is s) (order : OrderId) :
    Performed (s.parent order) (s.executed order) := by
  refine h.invariant (I := fun s => Performed (s.parent order) (s.executed order)) ?_ ?_
  · have hnil : ∀ a, ¬ Done (System.empty.executed order) a := by
      rintro a ⟨st, hst⟩
      cases hst
    refine ⟨fun a ha => absurd ha (hnil a), fun hc => hnil _ hc.1, fun _ _ hne => absurd rfl hne,
      ?_, nofun⟩
    rintro (hc | hc) <;> cases hc
  · intro t l u hI _ hs
    rcases seen order hs with
      ⟨m, i', -, -, hm, hp, -, he⟩ | ⟨-, -, -, -, -, -, -, hp, -, he⟩ | ⟨-, -, -, -, hp, -, he⟩ |
      ⟨-, -, -, -, hp, -, he⟩ | ⟨-, -, -, -, hp, -, he⟩ | ⟨-, hp, -, he⟩
    · rw [hp, he]
      exact hI.own hm
    · rw [hp, he]; exact hI
    · rw [hp, he]; exact hI
    · rw [hp, he]; exact hI
    · rw [hp, he]
      exact hI.same_pc rfl
    · rw [hp, he]; exact hI

theorem pc_of_capturePayment (h : Workflow.activity pc = some .capturePayment) :
    pc = .capturePayment := by
  cases pc with
  | capturePayment => rfl
  | forward stage => cases stage <;> cases h
  | _ => cases h

/-- What is executed is the activity that is awaited. -/
theorem mem_executes {m : Move Input Workflow.Signal Workflow.Event} {st : Option OrderStatus}
    (h : (a, st) ∈ executes s order m) :
    Workflow.activity (s.parent order).pos.pc = some a ∧ st = s.status order := by
  unfold executes at h
  split at h
  · next b hb _ =>
    obtain ⟨rfl, rfl⟩ := Prod.mk.inj (List.mem_singleton.mp h)
    exact ⟨hb, rfl⟩
  · cases h

/-- **The capture is sent while the row is DELIVERED.** -/
theorem captured_delivered {ok : System → Label → Prop} {is : List Label}
    (h : Run (step cfg) ok .empty is s) (order : OrderId) :
    ∀ st, (.capturePayment, st) ∈ s.executed order → st = some .delivered := by
  induction h with
  | nil => nofun
  | @snoc is s u l hrun _ hs ih =>
    intro st hst
    rcases seen order hs with
      ⟨m, i', -, -, hm, -, -, he⟩ | ⟨-, -, -, -, -, -, -, -, -, he⟩ | ⟨-, -, -, -, -, -, he⟩ |
      ⟨-, -, -, -, -, -, he⟩ | ⟨-, -, -, -, -, -, he⟩ | ⟨-, -, -, he⟩ <;> rw [he] at hst
    · rcases List.mem_append.mp hst with hst | hst
      · exact ih st hst
      · obtain ⟨ha, rfl⟩ := mem_executes hst
        have hpc : (s.parent order).pos.pc = .capturePayment := pc_of_capturePayment ha
        exact (refereed_of_run hrun order).capture (fits_of_run hrun order).1 hpc
    · exact ih st hst
    · exact ih st hst
    · exact ih st hst
    · exact ih st hst
    · exact ih st hst

/-- **Capture only after delivery, and never both money outcomes**: whatever signals
come, in whatever order, whatever fires and is repeated.  SETTLE_ORDER begins with the
commit of the reservation. -/
theorem capture_after_delivery {is : List Label} (h : Run (step cfg) Always .empty is s)
    (order : OrderId) :
    (∀ st, (.capturePayment, st) ∈ s.executed order → st = some .delivered) ∧
      ¬ (Done (s.executed order) .capturePayment ∧ Done (s.executed order) .voidAuthorization) ∧
      ((s.parent order).pos.pc = .returned .settled →
        Done (s.executed order) .capturePayment ∧ Done (s.executed order) .settleOrder) ∧
      ((s.parent order).pos.pc = .returned .cancelled →
        ¬ Done (s.executed order) .capturePayment ∧ ¬ Done (s.executed order) .settleOrder) := by
  have hp := performed_of_run h order
  refine ⟨captured_delivered h order, hp.once, fun hpc => ⟨hp.paid (.inr hpc), hp.settled hpc⟩,
    fun hpc => ⟨fun hd => ?_, fun hd => ?_⟩⟩
  · have hst := hp.stands _ hd
    rw [hpc] at hst
    simp [Stands] at hst
  · have hst := hp.stands _ hd
    rw [hpc] at hst
    simp [Stands] at hst

/-- An order that a customer wants to cancel when the courier has left: the cancel is too
late, and the money is taken after the delivery. -/
theorem capture_after_delivery_settled : ∃ s,
    Run (step oneCart) Always .empty
      (upToDelivery "o" ++ upToRider "o" ++ upToPickup "o" ++
        [.parent "o" (.signal .cancelRequested), .parent "o" (.event .wake)] ++ once "o" ++
        upToSettled "o") s ∧
    (s.parent "o").pos.pc = .returned .settled ∧
    (∀ st, (.capturePayment, st) ∈ s.executed "o" → st = some .delivered) ∧
    Done (s.executed "o") .capturePayment ∧ Done (s.executed "o") .settleOrder ∧
    ¬ Done (s.executed "o") .voidAuthorization := by
  obtain ⟨s, hs, hp⟩ : ∃ s, Run (step oneCart) Always .empty
      (upToDelivery "o" ++ upToRider "o" ++ upToPickup "o" ++
        [.parent "o" (.signal .cancelRequested), .parent "o" (.event .wake)] ++ once "o" ++
        upToSettled "o") s ∧
      decide ((s.parent "o").pos.pc = .returned .settled) = true :=
    exists_run_of_execOk (by decide)
  have hpc := of_decide_eq_true hp
  obtain ⟨hcap, honce, hset, -⟩ := capture_after_delivery hs "o"
  obtain ⟨hc, hd⟩ := hset hpc
  exact ⟨s, hs, hpc, hcap, hc, hd, fun hv => honce ⟨hc, hv⟩⟩

end

end Joint

end Order
