/-
What the two workflows know, if only the courier makes a mark fail.

An activity whose guarded move finds the row elsewhere fails for good.  But for a mark
that has lost to CANCELLING, such failures are left out here (`Legal`).

* `Steady` — without them a workflow fails at the capture only, a child dies only after
  the row has gone to CANCELLING, and a cancel that was too late has met the courier;
* `steady_of_run` — it holds in every state that a legal run reaches;
* `doomed_run` — an order whose next activity can only fail is ended by no legal run.
-/
import SmartFoodOps.Order.Capture

open Machine Durable
open Dispatch (OrderId RiderId)

namespace Order

namespace Joint

open Saga (Config Phase Input OtherMove View Spec Fits Moves)

/-! ### The failures that are left out -/

/-- No activity fails with IllegalTransition, but a mark that has lost to CANCELLING. -/
def Legal (order : OrderId) (s : System) (l : Label) : Prop :=
  match l with
  | .parent o .report => o = order → (s.parent order).attempt = .refused →
    (s.parent order).pos.pc = .capturePayment
  | .child o .report => o = order → (s.children order).map (·.attempt) = some .refused →
    s.status order = some .cancelling
  | _ => True

instance (order : OrderId) (s : System) (l : Label) : Decidable (Legal order s l) := by
  unfold Legal
  split <;> infer_instance

/-- The guarded move of the awaited activity finds the row where it may be. -/
def Grants (pc : Workflow.Pc) (st : Option OrderStatus) : Prop :=
  match pc with
  | .forward stage => st = some stage.status ∨ st = some (Saga.next stage)
  | .beginCancel expected _ _ _ => st = some expected ∨ st = some .cancelling
  | .finishCancel _ => st = some .cancelling ∨ st = some .cancelled
  | .markAccepted => st = some .confirmed ∨ st = some .accepted
  | .settleOrder => st = some .delivered ∨ st = some .settled
  | _ => True

/-- The awaited activity can only fail. -/
def Doomed (parent : Parent) (st : Option OrderStatus) : Prop :=
  (∀ a, parent.attempt ≠ .answered a) ∧ ¬ Grants parent.pos.pc st

/-! ### What holds without them -/

/-- The order is being cancelled, or is cancelled. -/
def Over (st : Option OrderStatus) : Prop := st = some .cancelling ∨ st = some .cancelled

/-- The child has been told to stop, or has failed. -/
def dying : Delivery.Pc → Bool
  | .cancelDispatch | .failed | .cancelled => true
  | _ => false

/-- The workflow has started its child, and does not know its end. -/
def Delivering (pc : Workflow.Pc) : Prop :=
  pc = .markAccepted ∨ pc = .awaitDelivery ∨ pc = .customerCancel ∨ pc = .drainChild ∨
    pc = .awaitChild

/-- The customer's cancel has come too late, as the workflow knows. -/
def TooLate (parent : Parent) : Prop :=
  parent.pos.pc = .awaitChild ∨
    parent.pos.pc = .customerCancel ∧ ∃ a, a ≠ .ok ∧ parent.attempt = .answered a

structure Steady (parent : Parent) (child : Option Child) (st : Option OrderStatus)
    (log : List (Workflow.Activity × Option OrderStatus)) : Prop where
  failed : parent.pos.pc = .failed → st = some .delivered ∧ Done log .capturePayment
  dying : ∀ i, child = some i → dying i.pos.pc = true → Over st ∨ ended parent.pos.pc = true
  late : TooLate parent → PickedUp st
  born : Delivering parent.pos.pc → child ≠ none

section

variable {cfg : Config} {s u : System} {l : Label} {order : OrderId} {parent parent' : Parent}
  {child : Option Child} {st st' : Option OrderStatus} {pc : Workflow.Pc}
  {t : Attempt Phase Workflow.Answer} {v v' : View} {phase : Phase} {w w' : Saga.World}

/-- Nothing takes an order back from its cancellation. -/
theorem over_work {a : Workflow.Activity} (hs : Spec a phase v v' t) (h : Over v.status) :
    Over v'.status := by
  have hmove : ∀ {expected target answer}, Moves expected target answer v v' t →
      Over (some target) ∨ ¬ Over (some expected) → Over v'.status := by
    intro expected target answer hm hor
    rcases moves_status hm with hst | ⟨hfrom, hto⟩
    · rw [hst]; exact h
    · rw [hfrom] at h
      rw [hto]
      exact hor.resolve_right (not_not_intro h)
  have hno : ∀ x : OrderStatus, x ≠ .cancelling → x ≠ .cancelled → ¬ Over (some x) := by
    rintro x h1 h2 (hx | hx)
    · exact h1 (Option.some.inj hx)
    · exact h2 (Option.some.inj hx)
  have hfinished : ∀ target returned, Over (Saga.finished target returned v).status := by
    intro target returned
    unfold Saga.finished
    split <;> exact h
  cases a <;> cases phase <;> try exact hs.elim
  case createOrder.first =>
    obtain ⟨rfl, -⟩ := hs
    rcases h with hv | hv
    · exact .inl (by simp [hv])
    · exact .inr (by simp [hv])
  case validateAndReserve.first => rcases hs with ⟨rfl, -⟩ | ⟨rfl, -⟩ <;> exact h
  case validateAndReserve.second => exact hmove hs (.inr (hno _ nofun nofun))
  case authorizePayment.first => obtain ⟨rfl, -⟩ := hs; exact h
  case authorizePayment.second => exact hmove hs (.inr (hno _ nofun nofun))
  case confirmOrder.first => exact hmove hs (.inr (hno _ nofun nofun))
  case markAccepted.first => exact hmove hs (.inr (hno _ nofun nofun))
  case beginCancel.first => exact hmove hs (.inl (.inl rfl))
  case tryBeginCancel.first =>
    rcases hs with ⟨-, rfl, -⟩ | ⟨-, rfl, -⟩
    · exact .inl rfl
    · exact h
  case voidAuthorization.first => obtain ⟨rfl, -⟩ := hs; exact h
  case releaseReservation.first => obtain ⟨rfl, -⟩ := hs; exact hfinished _ _
  case finishCancel.first => exact hmove hs (.inl (.inr rfl))
  case cancelDispatch.first => obtain ⟨rfl, -⟩ := hs; exact h
  case capturePayment.first => obtain ⟨rfl, -⟩ := hs; exact h
  case settleOrder.first => obtain ⟨rfl, -⟩ := hs; exact hfinished _ _
  case settleOrder.second => exact hmove hs (.inr (hno _ nofun nofun))

/-- A child's attempt moves the row to the pickup or the delivery, if it moves it. -/
theorem childWork_status {a : Delivery.Activity} {phase : Unit} {input : ChildInput}
    {t : Attempt Unit Delivery.Answer} (h : childWork order a phase input w = some (w', t)) :
    statusOf (w'.orders order) = statusOf (w.orders order) ∨
      statusOf (w.orders order) = some .ready ∧ statusOf (w'.orders order) = some .pickedUp ∨
      statusOf (w.orders order) = some .pickedUp ∧ statusOf (w'.orders order) = some .delivered := by
  by_cases hp : a = .markPickedUp
  · subst hp
    rcases mark_spec (Option.some.inj h) with ⟨hfrom | hat, hto, -⟩ | ⟨rfl, -⟩
    · exact .inr (.inl ⟨hfrom, hto⟩)
    · exact .inl (hto.trans hat.symm)
    · exact .inl rfl
  by_cases hd : a = .markDelivered
  · subst hd
    rcases mark_spec (Option.some.inj h) with ⟨hfrom | hat, hto, -⟩ | ⟨rfl, -⟩
    · exact .inr (.inr ⟨hfrom, hto⟩)
    · exact .inl (hto.trans hat.symm)
    · exact .inl rfl
  exact .inl (childWork_other h hp hd).1

theorem childMove_status {i i' : Child} {m : Move ChildInput Delivery.News Delivery.Event}
    (hm : move Delivery.flow childWorker order w i m = some (w', i')) :
    statusOf (w'.orders order) = statusOf (w.orders order) ∨
      statusOf (w.orders order) = some .ready ∧ statusOf (w'.orders order) = some .pickedUp ∨
      statusOf (w.orders order) = some .pickedUp ∧ statusOf (w'.orders order) = some .delivered := by
  rcases move_cases hm with ⟨input, a, phase, t, -, -, -, hw, -⟩ | ⟨rfl, -⟩
  · have hw : childWork order a phase input w = some (w', t) := hw
    exact childWork_status hw
  · exact .inl rfl

/-- A child begins to die by a cancellation, or by an activity that has failed. -/
theorem dying_own {i i' : Child} {m : Move ChildInput Delivery.News Delivery.Event}
    (hm : move Delivery.flow childWorker order w i m = some (w', i'))
    (hd : dying i'.pos.pc = true) :
    dying i.pos.pc = true ∨ m = .event .cancel ∨ m = .report ∧ i.attempt = .refused := by
  have hround : ∀ q : Delivery.Pos, dying (Delivery.nextRound q).pc = false := by
    intro q
    rcases Delivery.nextRound_pc q with hpc | hpc <;> rw [hpc] <;> rfl
  rcases move_cases hm with ⟨input, a, phase, t, -, -, -, -, rfl⟩ | ⟨-, hrest⟩
  · exact .inl hd
  · rcases hrest with ⟨-, -, rfl⟩ | ⟨a, answer, -, ha, -, rfl⟩ | ⟨a, rfl, -, hr, -⟩ |
      ⟨a, -, -, hb, -⟩ | ⟨n, -, rfl⟩ | ⟨e, pos, rfl, he, rfl⟩
    · exact .inl hd
    · left
      have hd : dying (Delivery.afterAnswer i.pos answer).pc = true := hd
      unfold Delivery.afterAnswer at hd
      split at hd
      case h_7 hpc => rw [hpc]; rfl
      case h_8 => exact hd
      all_goals first | (split at hd <;> first | cases hd | (rw [hround] at hd; cases hd)) | cases hd
    · exact .inr (.inr ⟨rfl, hr⟩)
    · cases hb
    · have hd : dying (Delivery.note i.pos n).pc = true := hd
      rw [Delivery.note_pc] at hd
      exact .inl hd
    · have he : Delivery.afterWait i.pos e = some pos := he
      have hd : dying pos.pc = true := hd
      cases e with
      | cancel => exact .inr (.inl rfl)
      | wake =>
        exfalso
        simp only [Delivery.afterWait] at he
        split at he
        · split at he <;> cases he
          rw [hround] at hd
          cases hd
        · obtain ⟨rider, -, rfl⟩ := Option.map_eq_some_iff.mp he
          cases hd
        · split at he <;> cases he
          cases hd
        · split at he <;> cases he
          cases hd
        · cases he
      | timeout =>
        exfalso
        simp only [Delivery.afterWait] at he
        split at he <;> cases he
        · rw [hround] at hd
          cases hd
        · cases hd
        · cases hd

/-- A workflow that has ended does nothing any more. -/
theorem ended_own {m : Move Input Workflow.Signal Workflow.Event}
    (hm : move Workflow.flow (Saga.worker cfg) order w parent m = some (w', parent'))
    (h : ended parent.pos.pc = true) : parent'.pos.pc = parent.pos.pc ∧ w' = w := by
  have hnone : Workflow.activity parent.pos.pc = none ∧
      ∀ e, Workflow.afterWait parent.pos e = none := by
    obtain ⟨⟨pc, decision, requested, child⟩, t⟩ := parent
    cases pc <;> cases h
    · exact ⟨rfl, fun e => by cases e <;> rfl⟩
    · exact ⟨rfl, fun e => by cases e <;> rfl⟩
  rcases move_cases hm with ⟨input, a, phase, t, -, ha, -⟩ | ⟨rfl, hrest⟩
  · rw [show Workflow.flow.pending parent.pos = none from hnone.1] at ha
    cases ha
  · rcases hrest with ⟨-, ⟨a, ha⟩, -⟩ | ⟨a, answer, -, ha, -⟩ | ⟨a, -, ha, -⟩ | ⟨a, -, ha, -⟩ |
      ⟨n, -, rfl⟩ | ⟨e, pos, -, he, -⟩
    iterate 4
      rw [show Workflow.flow.pending parent.pos = none from hnone.1] at ha
      cases ha
    · exact ⟨Workflow.onSignal_pc _ _, rfl⟩
    · rw [show Workflow.flow.event parent.pos e = none from hnone.2 e] at he
      cases he

/-- No answer leads to a failure, nor to the delivery but from the acceptance, nor to
the wait for a child that cannot be cancelled but from there. -/
theorem afterAnswer_failed (answer : Workflow.Answer) (ha : Workflow.activity pc ≠ none) :
    Workflow.afterAnswer pc answer ≠ .failed ∧
      (Delivering (Workflow.afterAnswer pc answer) → Delivering pc) ∧
      (Workflow.afterAnswer pc answer = .awaitChild → pc = .customerCancel ∧ answer ≠ .ok) ∧
      (Workflow.afterAnswer pc answer ≠ .customerCancel) := by
  have hleads := Workflow.leads answer ha
  generalize Workflow.afterAnswer pc answer = next at hleads ⊢
  cases hleads <;> simp_all [Delivering]

/-- Where a wait can lead to. -/
theorem afterWait_failed {p p' : Workflow.Pos} {e : Workflow.Event}
    (he : Workflow.afterWait p e = some p') :
    (p'.pc = .failed → (p.pc = .awaitDelivery ∨ p.pc = .awaitChild) ∧
      (p.child = some .failed ∨ p.child = some .cancelled)) ∧
    (Delivering p'.pc → Delivering p.pc ∨ e = .childStarted) ∧ p'.pc ≠ .awaitChild := by
  cases (Workflow.ends he).1 with
  | @child how hpc hchild hnext =>
    rw [hnext, hchild]
    cases how <;> simp [Workflow.afterChild, Delivering, hpc]
  | _ => simp_all [Delivering]

/-- The courier's lead is not lost. -/
theorem pickedUp_work {a : Workflow.Activity} (hexp : Lifecycle.Expects pc)
    (ha : Workflow.activity pc = some a) (hs : Spec a phase v v' t) (h : PickedUp v.status) :
    PickedUp v'.status := by
  rcases work_status hexp ha hs with he | ⟨hn, -⟩ | ⟨-, -, hst⟩
  · rw [he]; exact h
  · exact absurd h hn
  · rw [hst]
    exact .inr (.inr rfl)

/-- A cancel that is refused has found the courier's mark. -/
theorem pickedUp_of_tooLate {reason : CancelReason} {a : Workflow.Answer}
    (hf : Fits .customerCancel (.working phase) v.status)
    (hs : Spec (.tryBeginCancel reason) phase v v' (.answered a)) (hne : a ≠ .ok) :
    PickedUp v'.status := by
  cases phase with
  | second => exact hs.elim
  | first =>
    rcases hs with ⟨-, -, ht⟩ | ⟨hnot, rfl, -⟩
    · exact absurd (Attempt.answered.inj ht) hne
    · rcases hf.1 with (hl | hl | hl | hl | hl) | hc
      · exact absurd (by decide) (hnot _ hl).1
      · exact absurd (by decide) (hnot _ hl).1
      · exact absurd (by decide) (hnot _ hl).1
      · exact .inl hl
      · exact .inr (.inl hl)
      · exact absurd rfl (hnot _ hc).2

theorem dying_of_endOf {pc : Delivery.Pc} (h : endOf pc = some .failed ∨ endOf pc = some .cancelled) :
    dying pc = true := by
  unfold endOf at h
  split at h <;> first | rfl | simp at h

/-- While the workflow waits for the delivery, its child has not failed: it would have
lost to CANCELLING. -/
theorem Steady.alive {log : List (Workflow.Activity × Option OrderStatus)}
    (h : Steady parent child st log) (hr : Refereed parent child st)
    (hf : Fits parent.pos.pc parent.attempt st)
    (hat : parent.pos.pc = .awaitDelivery ∨ parent.pos.pc = .awaitChild) :
    ¬ (parent.pos.child = some .failed ∨ parent.pos.child = some .cancelled) := by
  intro hend
  obtain ⟨i, hi, hi'⟩ : ∃ i, child = some i ∧
      (endOf i.pos.pc = some .failed ∨ endOf i.pos.pc = some .cancelled) := by
    rcases hend with hend | hend <;> obtain ⟨i, hi, hi'⟩ := hr.told _ hend
    · exact ⟨i, hi, .inl hi'⟩
    · exact ⟨i, hi, .inr hi'⟩
  rcases h.dying i hi (dying_of_endOf hi') with hover | hen
  · rcases hat with hat | hat <;> rw [hat] at hf <;>
      rcases hover with ho | ho <;> rw [ho] at hf <;> simp [Fits, Saga.Live] at hf
  · rcases hat with hat | hat <;> rw [hat] at hen <;> cases hen

/-- **One move of the parent**, if it is legal. -/
theorem Steady.own {log log' : List (Workflow.Activity × Option OrderStatus)}
    {m : Move Input Workflow.Signal Workflow.Event}
    (h : Steady parent child (Saga.view order w).status log)
    (hr : Refereed parent child (Saga.view order w).status) (hb : Performed parent log)
    (hf : Fits parent.pos.pc parent.attempt (Saga.view order w).status)
    (htold : Told child m)
    (hlegal : m = .report → parent.attempt = .refused → parent.pos.pc = .capturePayment)
    (hlog : ∀ a, Done log a → Done log' a)
    (hm : move Workflow.flow (Saga.worker cfg) order w parent m = some (w', parent')) :
    Steady parent' child (Saga.view order w').status log' := by
  have hended : ended parent.pos.pc = true → ended parent'.pos.pc = true := fun he => by
    rw [(ended_own hm he).1]; exact he
  rcases move_cases hm with ⟨input, a, phase, t, -, ha, hp, hw, rfl⟩ | ⟨rfl, hrest⟩
  · have hs := Saga.work_spec hw
    have ha : Workflow.activity parent.pos.pc = some a := ha
    rw [hp] at hf
    refine ⟨fun hpc => ?_, fun i hi hd => ?_, fun hl => ?_, h.born⟩
    · have hpc : parent.pos.pc = .failed := hpc
      rw [hpc] at ha
      cases ha
    · exact (h.dying i hi hd).imp (over_work hs) hended
    · rcases hl with hpc | ⟨hpc, b, hne, ht⟩
      · have hpc : parent.pos.pc = .awaitChild := hpc
        rw [hpc] at ha
        cases ha
      · have hpc : parent.pos.pc = .customerCancel := hpc
        have ht : t = .answered b := ht
        rw [hpc] at ha hf
        cases ha
        subst ht
        exact pickedUp_of_tooLate hf hs hne
  · -- the row stays, and so does what the child has come to
    have hkeep : ∀ {i' : Parent}, (ended parent.pos.pc = true → ended i'.pos.pc = true) →
        (i'.pos.pc = .failed →
          (Saga.view order w').status = some .delivered ∧ Done log .capturePayment) →
        (TooLate i' → PickedUp (Saga.view order w').status) →
        (Delivering i'.pos.pc → child ≠ none) →
        Steady i' child (Saga.view order w').status log' := fun he hfail hlate hborn =>
      ⟨fun hpc => (hfail hpc).imp id (hlog _), fun i hi hd => (h.dying i hi hd).imp id he, hlate, hborn⟩
    have hfresh : ∀ {pos : Workflow.Pos}, (pos.pc = .awaitChild → TooLate parent) →
        TooLate (.enter (Saga.worker cfg) pos) → PickedUp (Saga.view order w').status := by
      rintro pos hpc (hl | ⟨-, a, -, ht⟩)
      · exact h.late (hpc hl)
      · cases ht
    rcases hrest with ⟨-, ⟨a, ha⟩, rfl⟩ | ⟨a, answer, -, ha, hr', rfl⟩ | ⟨a, rfl, ha, hr', rfl⟩ |
      ⟨a, -, -, hb', rfl⟩ | ⟨n, rfl, rfl⟩ | ⟨e, pos, rfl, he, rfl⟩
    · exact hkeep id h.failed (hfresh .inl) h.born
    · have hne : Workflow.activity parent.pos.pc ≠ none := by
        rw [show Workflow.activity parent.pos.pc = some a from ha]; simp
      obtain ⟨hnf, hdel, hwait, -⟩ := afterAnswer_failed answer hne
      refine hkeep hended (fun hpc => absurd hpc hnf) (hfresh fun hpc => ?_)
        fun hd => h.born (hdel hd)
      obtain ⟨hcc, hok⟩ := hwait hpc
      exact .inr ⟨hcc, answer, hok, hr'⟩
    · have hpc := hlegal rfl hr'
      refine hkeep (fun _ => rfl) (fun _ => ⟨hr.capture hf hpc, ?_⟩) (hfresh (by rintro ⟨⟩)) ?_
      · exact hb.begun _ (by rw [hpc]; rfl) (by rw [hr']; simp)
      · simp [Workflow.flow, Delivering]
    · obtain ⟨stage, hpc⟩ := forward_of_deadline hb'
      have hexp : Workflow.flow.expired parent.pos =
          { parent.pos with pc := Workflow.afterDeadline stage } := by
        simp [Workflow.flow, hpc]
      rw [hexp] at hended ⊢
      exact hkeep hended (by rintro ⟨⟩) (hfresh (by rintro ⟨⟩)) (by simp [Workflow.afterDeadline, Delivering])
    · have hpc : (Workflow.flow.signal parent.pos n).pc = parent.pos.pc := Workflow.onSignal_pc _ _
      refine hkeep hended (fun hf => h.failed (hpc ▸ hf)) (fun hl => h.late ?_)
        fun hd => h.born (hpc ▸ hd)
      exact hl.imp (fun hc => hpc ▸ hc) fun hc => ⟨hpc ▸ hc.1, hc.2⟩
    · obtain ⟨hfail, hdel, hwait⟩ := afterWait_failed he
      refine hkeep hended (fun hpc => ?_) (hfresh fun hpc => absurd hpc hwait) fun hd => ?_
      · obtain ⟨hat, hend⟩ := hfail hpc
        exact absurd hend (h.alive hr hf hat)
      · rcases hdel hd with hd | rfl
        · exact h.born hd
        · rintro rfl
          cases htold

/-- **One step**, if it is legal. -/
theorem Steady.step (h : Steady (s.parent order) (s.children order) (s.status order)
      (s.executed order))
    (hr : Refereed (s.parent order) (s.children order) (s.status order))
    (hb : Performed (s.parent order) (s.executed order))
    (hf : Fits (s.parent order).pos.pc (s.parent order).attempt (s.status order))
    (hlegal : Legal order s l) (hs : step cfg s l = some u) :
    Steady (u.parent order) (u.children order) (u.status order) (u.executed order) := by
  rcases seen order hs with
    ⟨m, i', rfl, htold, hm, hp, hc, he⟩ | ⟨m, i, i', rfl, hi, hask, hm, hp, hc, he⟩ |
    ⟨-, hpc, hnone, hst, hp, hc, he⟩ | ⟨m, hm, hs, hst, hp, hc, he⟩ |
    ⟨pid, -, -, hst, hp, hc, he⟩ | ⟨hst, hp, hc, he⟩
  · subst hp
    rw [hc, he]
    refine h.own hr hb hf htold ?_ (fun a hd => done_append.mpr (.inl hd)) hm
    rintro rfl hrefused
    exact hlegal rfl hrefused
  · rw [hp, hc, he]
    have hst : u.status order = s.status order ∨
        s.status order = some .ready ∧ u.status order = some .pickedUp ∨
        s.status order = some .pickedUp ∧ u.status order = some .delivered := childMove_status hm
    have hover : Over (s.status order) → Over (u.status order) := by
      intro ho
      rcases hst with hst | ⟨hst, -⟩ | ⟨hst, -⟩
      · exact hst ▸ ho
      · rcases ho with ho | ho <;> cases ho.symm.trans hst
      · rcases ho with ho | ho <;> cases ho.symm.trans hst
    refine ⟨fun hpc => ?_, fun j hj hd => ?_, fun hl => ?_, fun _ => nofun⟩
    · obtain ⟨hdel, hdone⟩ := h.failed hpc
      refine ⟨?_, hdone⟩
      rcases hst with hst | ⟨hst, -⟩ | ⟨hst, -⟩
      · exact hst.trans hdel
      · cases hdel.symm.trans hst
      · cases hdel.symm.trans hst
    · obtain rfl : i' = j := Option.some.inj hj
      rcases dying_own hm hd with hd | rfl | ⟨rfl, href⟩
      · exact (h.dying i hi hd).imp hover id
      · have hask := hask rfl
        simp only [asksCancel, Bool.or_eq_true, decide_eq_true_eq] at hask
        rcases hask with hpc | hen
        · rw [hpc] at hf
          exact .inl (hover (.inl hf))
        · exact .inr hen
      · refine .inl (hover (.inl (hlegal rfl ?_)))
        rw [hi, Option.map_some, href]
    · have hpick := h.late hl
      rcases hst with hst | ⟨-, hst⟩ | ⟨-, hst⟩
      · exact hst ▸ hpick
      · exact .inl hst
      · exact .inr (.inl hst)
  · rw [hp, hc, he, hst]
    refine ⟨h.failed, fun j hj hd => ?_, h.late, fun _ => nofun⟩
    obtain rfl : Inst.enter childWorker {} = j := Option.some.inj hj
    cases hd
  · rw [hp, hc, he, hst]
    refine ⟨fun hpc => ?_, fun i hi hd => ?_, fun hl => ?_, h.born⟩
    · have hdel := (h.failed hpc).1
      rw [hs] at hdel
      rcases hm with rfl | rfl <;> cases hdel
    · refine (h.dying i hi hd).imp (fun ho => ?_) id
      rw [hs] at ho
      rcases hm with rfl | rfl <;> rcases ho with ho | ho <;> cases ho
    · have hpick := h.late hl
      rw [hs] at hpick
      rcases hm with rfl | rfl <;> exact absurd hpick (by decide)
  · rw [hp, hc, he, hst]
    exact ⟨h.failed, h.dying, h.late, h.born⟩
  · rw [hp, hc, he, hst]
    exact h

theorem steady_of_run {is : List Label} (h : Run (Joint.step cfg) (Legal order) .empty is s) :
    Steady (s.parent order) (s.children order) (s.status order) (s.executed order) := by
  induction h with
  | nil =>
    have hchild : System.empty.children order = none := rfl
    have hpos : (System.empty.parent order).pos = {} := rfl
    rw [hchild]
    refine ⟨fun h => ?_, fun i h => ?_, ?_, ?_⟩
    · rw [hpos] at h
      cases h
    · cases h
    · rintro (hpc | ⟨hpc, -⟩) <;> cases hpc
    · rintro (hpc | hpc | hpc | hpc | hpc) <;> cases hpc
  | snoc hrun hlegal hs ih =>
    exact ih.step (refereed_of_run hrun order) (performed_of_run hrun order)
      (fits_of_run hrun order).1 hlegal hs

/-! ### Orders that can only fail -/

/-- Only the unwind that looks for its stage, and the acceptance, can find the row
elsewhere. -/
theorem Doomed.cases (hd : Doomed parent st) (hf : Fits parent.pos.pc parent.attempt st)
    (hr : Refereed parent child st) :
    (∃ expected reason void release, parent.pos.pc = .beginCancel expected reason void release ∧
      st ≠ some expected ∧ st ≠ some .cancelling) ∨
    (parent.pos.pc = .markAccepted ∧ st ≠ some .confirmed ∧ st ≠ some .accepted) := by
  obtain ⟨-, hg⟩ := hd
  cases hpc : parent.pos.pc with
  | forward stage => rw [hpc] at hf hg; exact absurd hf.1 hg
  | finishCancel reason => rw [hpc] at hf hg; exact absurd hf.1 hg
  | settleOrder =>
    rw [hpc] at hg
    exact absurd (hr.delivered (.inr hpc)) hg
  | beginCancel expected reason void release =>
    rw [hpc] at hg
    exact .inl ⟨_, _, _, _, rfl, not_or.mp hg⟩
  | markAccepted => rw [hpc] at hg; exact .inr ⟨rfl, not_or.mp hg⟩
  | _ => rw [hpc] at hg; exact absurd trivial hg

/-- The moves of the row by others do not help. -/
theorem Doomed.moved (hd : Doomed parent st) (hf : Fits parent.pos.pc parent.attempt st)
    (hr : Refereed parent child st) (hexp : Lifecycle.Expects parent.pos.pc)
    (hst : st' = some .preparing ∨ st' = some .ready ∨ st' = some .pickedUp ∨
      st' = some .delivered) : Doomed parent st' := by
  refine ⟨hd.1, ?_⟩
  rcases hd.cases hf hr with ⟨expected, reason, void, release, hpc, -⟩ | ⟨hpc, -⟩ <;>
    rw [hpc] at hexp ⊢
  · obtain ⟨from_, rfl⟩ := hexp
    rcases hst with rfl | rfl | rfl | rfl <;> cases from_ <;> simp [Grants, Lifecycle.UnwindFrom.status]
  · rcases hst with rfl | rfl | rfl | rfl <;> simp [Grants]

/-- A doomed order stays so. -/
theorem Doomed.step (hd : Doomed (s.parent order) (s.status order))
    (hf : Fits (s.parent order).pos.pc (s.parent order).attempt (s.status order))
    (hr : Refereed (s.parent order) (s.children order) (s.status order))
    (hexp : Lifecycle.Expects (s.parent order).pos.pc) (hlegal : Legal order s l)
    (hs : Joint.step cfg s l = some u) : Doomed (u.parent order) (u.status order) := by
  have hcases := hd.cases hf hr
  rcases seen order hs with
    ⟨m, i', rfl, -, hm, hp, -⟩ | ⟨_, _, _, -, -, -, hm, hp, -⟩ | ⟨-, -, -, hst, hp, -⟩ |
    ⟨m, hm, -, hst, hp, -⟩ | ⟨-, -, -, hst, hp, -⟩ | ⟨hst, hp, -⟩
  · subst hp
    rcases move_cases hm with ⟨input, a, phase, t, -, ha, -, hw, hi⟩ | ⟨hw, hrest⟩
    · -- the guard refuses
      have ha : Workflow.activity (s.parent order).pos.pc = some a := ha
      have hs := Saga.work_spec hw
      have hrefused : ∀ expected target answer, s.status order ≠ some expected →
          s.status order ≠ some target →
          Moves expected target answer (Saga.view order s.saga.world)
            (Saga.view order u.saga.world) t → Doomed (u.parent order) (u.status order) := by
        rintro expected target answer h1 h2 (⟨hor, -⟩ | ⟨-, -, hv, ht⟩)
        · exact absurd hor (not_or_intro h1 h2)
        · rw [hi, ht]
          refine ⟨(by simp), ?_⟩
          rw [status_view, hv]
          exact hd.2
      rcases hcases with ⟨expected, reason, void, release, hpc, h1, h2⟩ | ⟨hpc, h1, h2⟩ <;>
        rw [hpc] at ha <;> cases ha <;> cases phase
      · exact hrefused _ _ _ h1 h2 hs
      · exact hs.elim
      · exact hrefused _ _ _ h1 h2 hs
      · exact hs.elim
    · have hst : u.status order = s.status order := by
        rw [System.status, hw]
        rfl
      rw [hst]
      rcases hrest with ⟨-, -, hi⟩ | ⟨a, answer, -, -, hr', -⟩ | ⟨a, rfl, -, hr', -⟩ |
        ⟨a, -, -, hb, -⟩ | ⟨n, -, hi⟩ | ⟨e, pos, -, he, -⟩
      · rw [hi]
        exact ⟨(by simp), hd.2⟩
      · exact absurd hr' (hd.1 answer)
      · have hpc := hlegal rfl hr'
        rcases hcases with ⟨_, _, _, _, hpc', -⟩ | ⟨hpc', -⟩ <;> cases hpc.symm.trans hpc'
      · obtain ⟨stage, hpc⟩ := forward_of_deadline hb
        rcases hcases with ⟨_, _, _, _, hpc', -⟩ | ⟨hpc', -⟩ <;> cases hpc.symm.trans hpc'
      · rw [hi]
        refine ⟨hd.1, ?_⟩
        rw [show (Workflow.flow.signal (s.parent order).pos n).pc = (s.parent order).pos.pc from
          Workflow.onSignal_pc _ _]
        exact hd.2
      · have he : Workflow.afterWait (s.parent order).pos e = some pos := he
        rcases hcases with ⟨_, _, _, _, hpc, -⟩ | ⟨hpc, -⟩ <;> cases e <;>
          simp [Workflow.afterWait, hpc] at he
  · rw [hp]
    have hst : u.status order = s.status order ∨
        s.status order = some .ready ∧ u.status order = some .pickedUp ∨
        s.status order = some .pickedUp ∧ u.status order = some .delivered := childMove_status hm
    rcases hst with hst | ⟨-, hst⟩ | ⟨-, hst⟩
    · rw [hst]
      exact hd
    · exact hd.moved hf hr hexp (.inr (.inr (.inl hst)))
    · exact hd.moved hf hr hexp (.inr (.inr (.inr hst)))
  · rw [hp, hst]
    exact hd
  · rw [hp]
    refine hd.moved hf hr hexp ?_
    rw [hst]
    rcases hm with rfl | rfl
    · exact .inl rfl
    · exact .inr (.inl rfl)
  · rw [hp, hst]
    exact hd
  · rw [hp, hst]
    exact hd

/-- **No legal run ends a doomed order.** -/
theorem doomed_run {is js : List Label} (h : Run (Joint.step cfg) (Legal order) .empty is s)
    (hd : Doomed (s.parent order) (s.status order))
    (h' : Run (Joint.step cfg) (Legal order) s js u) :
    Doomed (u.parent order) (u.status order) ∧ ¬ (u.parent order).pos.pc.Closed := by
  have hdoomed : Doomed (u.parent order) (u.status order) := by
    induction h' with
    | nil => exact hd
    | snoc hrun hlegal hs ih =>
      have hall := h.append hrun
      obtain ⟨hf, hexp⟩ := fits_of_run hall order
      exact ih.step hf (refereed_of_run hall order) hexp hlegal hs
  refine ⟨hdoomed, fun hclosed => ?_⟩
  obtain ⟨-, hg⟩ := hdoomed
  rcases hclosed with ⟨result, hpc⟩ | hpc <;> rw [hpc] at hg <;> exact hg trivial

end

end Joint

end Order
