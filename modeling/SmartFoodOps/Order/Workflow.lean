/-
`OrderWorkflow`, as a durable flow.

The position of the workflow is the await it stands at (`Pc`), with the fields that
signals write.  `run`, `_deliver_or_cancel`, `_cancel` and `_unwind` are read off as
what follows each await: the result of an activity, a failure that is not retried,
the deadline of a forward step, or the end of a wait.

Left out: the `await_placement` update, which no later step depends on.
-/
import SmartFoodOps.Lib.Durable
import SmartFoodOps.Order.Transitions

open Durable

namespace Order

namespace Workflow

inductive Verdict
  | accept
  | reject
  deriving DecidableEq, Repr

/-- What `run` returns. -/
inductive SagaResult
  | cancelled
  | settled
  deriving DecidableEq, Repr

/-- How the child workflow ended: with a result, with a failure, or cancelled. -/
inductive ChildEnd
  | delivered
  | noRider
  | failed
  | cancelled
  deriving DecidableEq, Repr

/-- The activities of the saga, with the arguments besides the order and its price. -/
inductive Activity
  | createOrder
  | validateAndReserve
  | authorizePayment
  | confirmOrder
  | markAccepted
  | beginCancel (expected : OrderStatus) (reason : CancelReason)
  | tryBeginCancel (reason : CancelReason)
  | voidAuthorization
  | releaseReservation
  | finishCancel (reason : CancelReason)
  | cancelDispatch
  | capturePayment
  | settleOrder
  deriving DecidableEq, Repr

/-- The values that activities answer; `done` is `None`. -/
inductive Answer
  | done
  | ok
  | itemUnavailable
  | atCapacity
  | declined
  | tooLate
  deriving DecidableEq, Repr

/-- `stage`: the last state that the database is known to hold. -/
inductive Stage
  | placed
  | validated
  | paymentCleared
  deriving DecidableEq, Repr

def Stage.status : Stage → OrderStatus
  | placed => .placed
  | validated => .validated
  | paymentCleared => .paymentCleared

/-- The await that the workflow stands at. -/
inductive Pc
  | createOrder
  | forward (stage : Stage)
  -- _cancel and _unwind
  | beginCancel (expected : OrderStatus) (reason : CancelReason) (void release : Bool)
  | voidAuthorization (reason : CancelReason) (release : Bool)
  | releaseReservation (reason : CancelReason)
  | finishCancel (reason : CancelReason)
  -- the restaurant's decision
  | awaitDecision
  | startChild
  | markAccepted
  -- _deliver_or_cancel
  | awaitDelivery
  | customerCancel
  | drainChild
  | awaitChild
  | noRiderCancel
  | cancelDispatch
  -- after the delivery
  | capturePayment
  | settleOrder
  | returned (result : SagaResult)
  | failed
  deriving DecidableEq, Repr

structure Pos where
  pc : Pc := .createOrder
  decision : Option Verdict := none
  cancelRequested : Bool := false
  /-- The end of the child, once it has ended. -/
  child : Option ChildEnd := none
  deriving DecidableEq, Repr

inductive Signal
  | restaurantDecision (verdict : Verdict)
  | cancelRequested
  | childEnded (how : ChildEnd)
  deriving DecidableEq, Repr

/-- What ends a wait: its condition, its timeout, or the start of the child. -/
inductive Event
  | wake
  | timeout
  | childStarted
  deriving DecidableEq, Repr

def forwardActivity : Stage → Activity
  | .placed => .validateAndReserve
  | .validated => .authorizePayment
  | .paymentCleared => .confirmOrder

/-- The activity that the workflow awaits. -/
def activity : Pc → Option Activity
  | .createOrder => some .createOrder
  | .forward stage => some (forwardActivity stage)
  | .beginCancel expected reason _ _ => some (.beginCancel expected reason)
  | .voidAuthorization _ _ => some .voidAuthorization
  | .releaseReservation _ => some .releaseReservation
  | .finishCancel reason => some (.finishCancel reason)
  | .markAccepted => some .markAccepted
  | .customerCancel => some (.tryBeginCancel .customerCancelled)
  | .noRiderCancel => some (.tryBeginCancel .noRiderAvailable)
  | .cancelDispatch => some .cancelDispatch
  | .capturePayment => some .capturePayment
  | .settleOrder => some .settleOrder
  | .awaitDecision | .startChild | .awaitDelivery | .drainChild | .awaitChild
  | .returned _ | .failed => none

/-- `_unwind`, after `release`. -/
def unwindRelease (reason : CancelReason) (release : Bool) : Pc :=
  if release then .releaseReservation reason else .finishCancel reason

/-- `_unwind`. -/
def unwind (reason : CancelReason) (void release : Bool) : Pc :=
  if void then .voidAuthorization reason release else unwindRelease reason release

/-- The result of a forward step. -/
def afterForward : Stage → Answer → Pc
  | .placed, answer =>
    if answer = .ok then .forward .validated
    else .beginCancel .placed (if answer = .itemUnavailable then .itemUnavailable else .atCapacity)
      false false
  | .validated, answer =>
    if answer = .ok then .forward .paymentCleared
    else .beginCancel .validated .paymentDeclined false true
  | .paymentCleared, _ => .awaitDecision

/-- `except _RanOutOfTime`. -/
def afterDeadline (stage : Stage) : Pc :=
  .beginCancel stage.status .systemTimeout (stage != .placed) true

/-- The fork after the durable wait. -/
def afterDecision (p : Pos) : Pc :=
  if p.cancelRequested then .beginCancel .confirmed .customerCancelled true true
  else if p.decision = some .accept then .startChild
  else .beginCancel .confirmed
    (if p.decision = some .reject then .restaurantRejected else .restaurantTimeout) true true

/-- `outcome = await child`. -/
def afterChild : ChildEnd → Pc
  | .delivered => .capturePayment
  | .noRider => .noRiderCancel
  | .failed | .cancelled => .failed

/-- What follows the result of the awaited activity. -/
def afterAnswer (pc : Pc) (answer : Answer) : Pc :=
  match pc with
  | .createOrder => .forward .placed
  | .forward stage => afterForward stage answer
  | .beginCancel _ reason void release => unwind reason void release
  | .voidAuthorization reason release => unwindRelease reason release
  | .releaseReservation reason => .finishCancel reason
  | .finishCancel _ => .returned .cancelled
  | .markAccepted => .awaitDelivery
  | .customerCancel => if answer = .ok then .drainChild else .awaitChild
  | .noRiderCancel => if answer = .ok then .cancelDispatch else .capturePayment
  | .cancelDispatch => unwind .noRiderAvailable true true
  | .capturePayment => .settleOrder
  | .settleOrder => .returned .settled
  | pc => pc

/-- What ends the wait that the workflow stands at. -/
def afterWait (p : Pos) : Event → Option Pos
  | .wake =>
    match p.pc, p.child with
    | .awaitDecision, _ =>
      if p.decision ≠ none ∨ p.cancelRequested then some { p with pc := afterDecision p } else none
    | .awaitDelivery, some how => some { p with pc := afterChild how }
    | .awaitDelivery, none => if p.cancelRequested then some { p with pc := .customerCancel } else none
    | .drainChild, some _ => some { p with pc := unwind .customerCancelled true true }
    | .awaitChild, some how => some { p with pc := afterChild how }
    | _, _ => none
  | .timeout =>
    if p.pc = .awaitDecision then
      some { p with pc := afterDecision { p with decision := none }, decision := none }
    else none
  | .childStarted => if p.pc = .startChild then some { p with pc := .markAccepted } else none

/-- Where an answer takes the workflow. -/
inductive Leads : Pc → Answer → Pc → Prop
  | created {answer} : Leads .createOrder answer (.forward .placed)
  | validated : Leads (.forward .placed) .ok (.forward .validated)
  | unplaced {answer} (reason) (h : answer ≠ .ok) :
      Leads (.forward .placed) answer (.beginCancel .placed reason false false)
  | cleared : Leads (.forward .validated) .ok (.forward .paymentCleared)
  | declined {answer} (h : answer ≠ .ok) :
      Leads (.forward .validated) answer (.beginCancel .validated .paymentDeclined false true)
  | confirmed {answer} : Leads (.forward .paymentCleared) answer .awaitDecision
  | voids {expected reason release answer} :
      Leads (.beginCancel expected reason true release) answer (.voidAuthorization reason release)
  | takesBack {expected reason answer} :
      Leads (.beginCancel expected reason false true) answer (.releaseReservation reason)
  | closes {expected reason answer} :
      Leads (.beginCancel expected reason false false) answer (.finishCancel reason)
  | voided {reason answer} :
      Leads (.voidAuthorization reason true) answer (.releaseReservation reason)
  | kept {reason answer} : Leads (.voidAuthorization reason false) answer (.finishCancel reason)
  | released {reason answer} : Leads (.releaseReservation reason) answer (.finishCancel reason)
  | cancelled {reason answer} : Leads (.finishCancel reason) answer (.returned .cancelled)
  | accepted {answer} : Leads .markAccepted answer .awaitDelivery
  | drains : Leads .customerCancel .ok .drainChild
  | tooLate {answer} (h : answer ≠ .ok) : Leads .customerCancel answer .awaitChild
  | unridden : Leads .noRiderCancel .ok .cancelDispatch
  | ridden {answer} (h : answer ≠ .ok) : Leads .noRiderCancel answer .capturePayment
  | freed {answer} :
      Leads .cancelDispatch answer (.voidAuthorization .noRiderAvailable true)
  | captured {answer} : Leads .capturePayment answer .settleOrder
  | settled {answer} : Leads .settleOrder answer (.returned .settled)

theorem leads {pc : Pc} (answer : Answer) (ha : activity pc ≠ none) :
    Leads pc answer (afterAnswer pc answer) := by
  cases pc with
  | forward stage =>
    cases stage with
    | placed =>
      by_cases hans : answer = .ok
      · subst hans
        exact .validated
      · simp only [afterAnswer, afterForward, if_neg hans]
        exact .unplaced _ hans
    | validated =>
      by_cases hans : answer = .ok
      · subst hans
        exact .cleared
      · simp only [afterAnswer, afterForward, if_neg hans]
        exact .declined hans
    | paymentCleared => exact .confirmed
  | beginCancel expected reason void release =>
    cases void with
    | true => exact .voids
    | false => cases release <;> constructor
  | voidAuthorization reason release => cases release <;> constructor
  | customerCancel =>
    by_cases hans : answer = .ok
    · subst hans
      exact .drains
    · simp only [afterAnswer, if_neg hans]
      exact .tooLate hans
  | noRiderCancel =>
    by_cases hans : answer = .ok
    · subst hans
      exact .unridden
    · simp only [afterAnswer, if_neg hans]
      exact .ridden hans
  | awaitDecision | startChild | awaitDelivery | drainChild | awaitChild | returned | failed =>
    exact absurd rfl ha
  | _ => constructor

/-- How a wait ends. -/
inductive Ends (p : Pos) (e : Event) (p' : Pos) : Prop
  | begins (hpc : p.pc = .awaitDecision) (hnext : p'.pc = .startChild)
  | cancels {reason : CancelReason} (hpc : p.pc = .awaitDecision)
      (hnext : p'.pc = .beginCancel .confirmed reason true true)
      (hreason : reason = .customerCancelled ∨ reason = .restaurantRejected ∨
        reason = .restaurantTimeout)
  | asked (hpc : p.pc = .awaitDelivery) (hnext : p'.pc = .customerCancel)
  | child {how : ChildEnd} (hpc : p.pc = .awaitDelivery ∨ p.pc = .awaitChild)
      (hchild : p.child = some how) (hnext : p'.pc = afterChild how)
  | drained {how : ChildEnd} (hpc : p.pc = .drainChild) (hchild : p.child = some how)
      (hnext : p'.pc = .voidAuthorization .customerCancelled true)
  | started (hpc : p.pc = .startChild) (he : e = .childStarted) (hnext : p'.pc = .markAccepted)

theorem afterDecision_cases (p : Pos) : afterDecision p = .startChild ∨
    ∃ reason, afterDecision p = .beginCancel .confirmed reason true true ∧
      (reason = .customerCancelled ∨ reason = .restaurantRejected ∨
        reason = .restaurantTimeout) := by
  unfold afterDecision
  split
  · exact .inr ⟨_, rfl, .inl rfl⟩
  · split
    · exact .inl rfl
    · refine .inr ⟨_, rfl, ?_⟩
      split <;> simp

/-- A wait ends in one of these ways, and forgets nothing about the child and the customer's
cancel. -/
theorem ends {p p' : Pos} {e : Event} (h : afterWait p e = some p') :
    Ends p e p' ∧ p'.child = p.child ∧ p'.cancelRequested = p.cancelRequested := by
  obtain ⟨pc, decision, requested, child⟩ := p
  have hdecides : ∀ {q : Pos}, p'.pc = afterDecision q → pc = .awaitDecision →
      Ends ⟨pc, decision, requested, child⟩ e p' := by
    intro q hq hpc
    rcases afterDecision_cases q with hbegins | ⟨reason, hcancels, hreason⟩
    · exact .begins hpc (hq.trans hbegins)
    · exact .cancels hpc (hq.trans hcancels) hreason
  cases e with
  | wake =>
    simp only [afterWait] at h
    split at h
    · split at h <;> cases h
      exact ⟨hdecides rfl rfl, rfl, rfl⟩
    · cases h
      exact ⟨.child (.inl rfl) rfl rfl, rfl, rfl⟩
    · split at h <;> cases h
      exact ⟨.asked rfl rfl, rfl, rfl⟩
    · cases h
      exact ⟨.drained rfl rfl rfl, rfl, rfl⟩
    · cases h
      exact ⟨.child (.inr rfl) rfl rfl, rfl, rfl⟩
    · cases h
  | timeout =>
    simp only [afterWait] at h
    split at h
    · next hpc =>
      cases h
      exact ⟨hdecides rfl hpc, rfl, rfl⟩
    · cases h
  | childStarted =>
    simp only [afterWait] at h
    split at h
    · next hpc =>
      cases h
      exact ⟨.started hpc rfl rfl, rfl, rfl⟩
    · cases h

/-- The signal handlers, and the news of the child's end. -/
def onSignal (p : Pos) : Signal → Pos
  | .restaurantDecision verdict => { p with decision := p.decision.or (some verdict) }
  | .cancelRequested => { p with cancelRequested := true }
  | .childEnded how => { p with child := p.child.or (some how) }

def isForward : Pc → Bool
  | .forward _ => true
  | _ => false

/-- `OrderWorkflow`: only the forward steps have a deadline, and an error that is not
retried escapes `run`. -/
def flow : Flow Pos Activity Answer Signal Event where
  pending p := activity p.pc
  bounded p := isForward p.pc
  answered p answer := { p with pc := afterAnswer p.pc answer }
  refused p := { p with pc := .failed }
  expired p := match p.pc with
    | .forward stage => { p with pc := afterDeadline stage }
    | _ => p
  signal := onSignal
  event := afterWait

@[simp] theorem onSignal_pc (p : Pos) (s : Signal) : (onSignal p s).pc = p.pc := by
  cases s <;> rfl

/-- The workflow has ended. -/
def Pc.Closed (pc : Pc) : Prop := (∃ result, pc = .returned result) ∨ pc = .failed

end Workflow

end Order
