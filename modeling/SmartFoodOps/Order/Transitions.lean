/-
The order row and its only writer.

Every status change of an order is one guarded UPDATE: `transition` names the
status it expects, `begin_cancel_from` a set of them.  A move stamps the
milestone of its target, records the cancellation and stages its event in the
same transaction, so each is one function on the row.

* `transition_applied` — what a move that applies leaves behind;
* `transition_replayed`, `transition_illegal` — a move that matches no row is a
  replay if the row is at the target, and illegal otherwise.
-/
import SmartFoodOps.Dispatch.Stores

open Dispatch (OrderId RiderId)

namespace Order

/-! ### The vocabulary -/

inductive OrderStatus
  | placed
  | validated
  | paymentCleared
  | confirmed
  | accepted
  | preparing
  | ready
  | pickedUp
  | delivered
  | settled
  | cancelling
  | cancelled
  | refunded
  deriving DecidableEq, Repr

inductive CancelReason
  | itemUnavailable
  | atCapacity
  | paymentDeclined
  | restaurantRejected
  | restaurantTimeout
  | customerCancelled
  | systemTimeout
  | noRiderAvailable
  deriving DecidableEq, Repr

/-- The events an order move stages. -/
inductive EventType
  | orderPlaced
  | orderConfirmed
  | orderAccepted
  | orderPreparing
  | orderReady
  | orderPickedUp
  | orderDelivered
  | orderSettled
  | orderCancelled
  deriving DecidableEq, Repr

/-- `MILESTONES`: the statuses that have a column of their own. -/
def isMilestone : OrderStatus → Bool
  | .paymentCleared | .confirmed | .accepted | .preparing | .ready | .pickedUp => true
  | _ => false

/-- The row of `orders`, with its cancellation record and its outbox rows. -/
structure OrderRow where
  requestHash : Option String
  status : OrderStatus
  milestones : OrderStatus → Option ℕ := fun _ => none
  cancellation : Option (CancelReason × ℕ) := none
  riderId : Option RiderId := none
  events : List EventType := []

/-! ### The writes -/

/-- `insert_order` and the outbox row that commits with it. -/
def OrderRow.place (requestHash : String) : OrderRow :=
  { requestHash := some requestHash, status := .placed, events := [.orderPlaced] }

/-- `record_cancellation`: the first writer wins. -/
def OrderRow.recordCancellation (r : OrderRow) (reason : CancelReason) (now : ℕ) : OrderRow :=
  { r with cancellation := r.cancellation.or (some (reason, now)) }

/-- The column writes of a guarded move. -/
def OrderRow.moveTo (r : OrderRow) (target : OrderStatus) (now : ℕ) : OrderRow :=
  { r with status := target,
           milestones := if isMilestone target then
             Function.update r.milestones target (some now) else r.milestones }

/-- What commits with the move. -/
def OrderRow.announce (r : OrderRow) (event : Option EventType) (reason : Option CancelReason)
    (now : ℕ) : OrderRow :=
  let r := match reason with
    | some reason => r.recordCancellation reason now
    | none => r
  { r with events := r.events ++ event.toList }

/-- The exception, with the status that was found; `none` is `"absent"`. -/
structure IllegalTransition where
  expected : OrderStatus
  target : OrderStatus
  actual : Option OrderStatus
  deriving DecidableEq, Repr

/-- `transition`: the row afterwards and `applied`. -/
def transition (row : Option OrderRow) (expected target : OrderStatus)
    (event : Option EventType) (reason : Option CancelReason) (now : ℕ) :
    Except IllegalTransition (Option OrderRow × Bool) :=
  match row with
  | none => .error ⟨expected, target, none⟩
  | some r =>
    if r.status = expected then .ok (some ((r.moveTo target now).announce event reason now), true)
    else if r.status = target then .ok (some r, false)
    else .error ⟨expected, target, some r.status⟩

/-- `begin_cancel_from`. -/
def beginCancelFrom (row : Option OrderRow) (allowed : List OrderStatus) (reason : CancelReason)
    (now : ℕ) : Option OrderRow × Bool :=
  match row with
  | none => (none, false)
  | some r =>
    if r.status ∈ allowed then
      (some ((r.moveTo .cancelling now).recordCancellation reason now), true)
    else (some r, r.status = .cancelling)

/-- `record_rider`. -/
def recordRider (row : Option OrderRow) (rider : RiderId) : Option OrderRow :=
  row.map fun r => { r with riderId := some rider }

/-- `CANCELLABLE_KITCHEN_STATES`. -/
def cancellableKitchenStates : List OrderStatus := [.accepted, .preparing, .ready]

/-- The status of the row, if there is a row. -/
def statusOf (row : Option OrderRow) : Option OrderStatus := row.map (·.status)

/-! ### What a write says about the row -/

section

variable {r : OrderRow} {row row' : Option OrderRow} {expected target : OrderStatus}
  {event : Option EventType} {reason : Option CancelReason} {now : ℕ}

@[simp] theorem moveTo_status : (r.moveTo target now).status = target := rfl

@[simp] theorem announce_status : (r.announce event reason now).status = r.status := by
  cases reason <;> rfl

@[simp] theorem statusOf_some : statusOf (some r) = some r.status := rfl

@[simp] theorem statusOf_none : statusOf none = none := rfl

/-- A move that is answered leaves the row at its target. -/
theorem transition_ok {applied : Bool}
    (h : transition row expected target event reason now = .ok (row', applied)) :
    statusOf row' = some target ∧
      (statusOf row = some expected ∨ (statusOf row = some target ∧ row' = row)) := by
  cases row with
  | none => cases h
  | some r =>
    simp only [transition] at h
    split at h
    · next hs => cases h; exact ⟨by simp, .inl (congrArg some hs)⟩
    · split at h
      · next hs => cases h; exact ⟨congrArg some hs, .inr ⟨congrArg some hs, rfl⟩⟩
      · cases h

/-- An illegal move found the row neither where it was expected nor at the target. -/
theorem transition_error {e : IllegalTransition}
    (h : transition row expected target event reason now = .error e) :
    statusOf row ≠ some expected ∧ statusOf row ≠ some target := by
  cases row with
  | none => simp
  | some r =>
    simp only [transition] at h
    split at h
    · cases h
    · next he =>
      split at h
      · cases h
      · next ht => exact ⟨fun hs => he (Option.some.inj hs), fun hs => ht (Option.some.inj hs)⟩

end

end Order
