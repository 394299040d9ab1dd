/-
Why an order is where it is.

* `Timeline`, `Delivery`, `KitchenLoad`, `Budget` — the facts, as they arrive;
* `paymentHeld` — whether the order held money, or nobody recorded it;
* `resolve` — the verdict on the facts: a reason, how long its stage has taken, and whether it is
  past the deadline of a timer.

Times are in microseconds.
-/
import Mathlib.Data.Int.Notation
import Mathlib.Data.Nat.Notation

namespace Assistant.Explain

/-! ### The facts -/

/-- The order's own facts; a stamp that is missing was never reached, or never recorded. -/
structure Timeline where
  status : String
  placedAt : ℕ
  paymentClearedAt : Option ℕ := none
  confirmedAt : Option ℕ := none
  acceptedAt : Option ℕ := none
  preparingAt : Option ℕ := none
  readyAt : Option ℕ := none
  pickedUpAt : Option ℕ := none
  cancelReason : Option String := none
  deriving DecidableEq

structure Delivery where
  state : String
  assignedAt : Option ℕ := none
  deriving DecidableEq

structure KitchenLoad where
  restaurantId : String
  active : ℤ
  capacity : ℤ
  asOf : ℕ
  deriving DecidableEq

/-- The timers that the order runs under, in seconds. -/
structure Budget where
  acceptTimeoutS : ℤ := 180
  noRiderDeadlineS : ℤ := 600
  pickupTimeoutS : ℤ := 300
  forwardDeadlineS : ℤ := 300
  deriving DecidableEq

/-! ### The verdict -/

inductive ReasonCode
  | paymentInProgress
  | awaitingRestaurant
  | kitchenNotStarted
  | kitchenPreparing
  | kitchenBusy
  | awaitingCourier
  | courierOnTheWay
  | inTransit
  | delivered
  | refunded
  | cancelledByCustomer
  | cancelledByRestaurant
  | cancelledRestaurantSilent
  | cancelledItemUnavailable
  | cancelledKitchenFull
  | cancelledPaymentDeclined
  | cancelledNoCourier
  | cancelledSystem
  | unknown
  deriving DecidableEq, Repr

/-- A bound on the current stage. -/
structure Eta where
  lowS : ℤ
  highS : ℤ
  basis : String
  covers : String
  deriving DecidableEq

/-- What a renderer may draw on. A fact that is absent is `none`; `payment_held` is a fact that can
say that nobody knows. -/
structure Facts where
  cancelReason : Option (Option String) := none
  reachedKitchen : Option Bool := none
  paymentHeld : Option (Option Bool) := none
  unwindDone : Option Bool := none
  status : Option String := none
  collected : Option Bool := none
  foodReadyForS : Option (Option ℕ) := none
  foodIsReady : Option Bool := none
  active : Option ℤ := none
  capacity : Option ℤ := none
  asOf : Option ℕ := none
  deriving DecidableEq

structure Verdict where
  reason : ReasonCode
  overdue : Option Bool
  stage : String
  stageElapsedS : Option ℕ
  eta : Option Eta := none
  facts : Facts := {}
  deriving DecidableEq

/-- `_PRE_AUTHORIZATION_REASONS`. -/
def preAuthorizationReasons : List String := ["payment_declined", "item_unavailable", "at_capacity"]

/-- `_payment_held`: held, not held, or nobody recorded it. -/
def paymentHeld (t : Timeline) : Option Bool :=
  if t.paymentClearedAt.isSome then some true
  else if t.cancelReason.getD "" ∈ preAuthorizationReasons then some false
  else if t.confirmedAt.isSome ∨ t.acceptedAt.isSome ∨ t.preparingAt.isSome ∨ t.readyAt.isSome ∨
      t.pickedUpAt.isSome then some true
  else none

/-- `_BY_CANCEL_REASON`. -/
def byCancelReason (reason : String) : ReasonCode :=
  if reason = "customer_cancelled" then .cancelledByCustomer
  else if reason = "restaurant_rejected" then .cancelledByRestaurant
  else if reason = "restaurant_timeout" then .cancelledRestaurantSilent
  else if reason = "item_unavailable" then .cancelledItemUnavailable
  else if reason = "at_capacity" then .cancelledKitchenFull
  else if reason = "payment_declined" then .cancelledPaymentDeclined
  else if reason = "no_rider_available" then .cancelledNoCourier
  else if reason = "system_timeout" then .cancelledSystem
  else .unknown

/-- `_elapsed`: whole seconds, and none that are negative. -/
def elapsedS (since : Option ℕ) (now : ℕ) : Option ℕ := since.map fun t => (now - t) / 1000000

/-- `_bounded`: whether a stage is past its budget, and what is left of it. -/
def bounded (elapsed : Option ℕ) (budgetS : ℤ) (basis covers : String) : Option Bool × Option Eta :=
  match elapsed with
  | none => (none, none)
  | some elapsed =>
    if budgetS - elapsed ≤ 0 then (some true, none)
    else (some false, some ⟨0, budgetS - elapsed, basis ++ "=" ++ toString budgetS ++ "s", covers⟩)

section

variable (t : Timeline) (now : ℕ) (delivery : Option Delivery) (load : Option KitchenLoad)
  (budget : Budget)

/-- `_ready`: whether there is a courier yet. -/
def ready : Verdict :=
  let waiting := elapsedS t.readyAt now
  let sought :=
    let bound := bounded waiting budget.noRiderDeadlineS "no_rider_deadline_s"
      "until a courier is assigned or the order is cancelled"
    { reason := .awaitingCourier
      overdue := bound.1
      stage := "awaiting_courier"
      stageElapsedS := waiting
      eta := bound.2
      facts := { foodIsReady := some true, paymentHeld := some (paymentHeld t),
                 unwindDone := some false } }
  match delivery with
  | none => sought
  | some d =>
    let assigned := elapsedS d.assignedAt now
    if d.state = "PICKED_UP" then
      -- the courier has the food, and the order's row has not caught up
      { reason := .courierOnTheWay
        overdue := none
        stage := "courier_to_pickup"
        stageElapsedS := assigned
        facts := { collected := some true, foodReadyForS := some waiting } }
    else if d.state = "ASSIGNED" then
      let bound := bounded assigned budget.pickupTimeoutS "pickup_timeout_s"
        "until the courier collects the order"
      { reason := .courierOnTheWay
        overdue := bound.1
        stage := "courier_to_pickup"
        stageElapsedS := assigned
        eta := bound.2
        facts := { foodReadyForS := some waiting } }
    else sought

/-- `_kitchen`: which has no timer. -/
def kitchen : Verdict :=
  let cooking : Bool := t.status = "PREPARING"
  let stage := if cooking then "preparing" else "kitchen_not_started"
  let elapsed := elapsedS (if cooking then t.preparingAt else t.acceptedAt) now
  let quiet : Verdict :=
    { reason := if cooking then .kitchenPreparing else .kitchenNotStarted
      overdue := none
      stage := stage
      stageElapsedS := elapsed }
  match load with
  | none => quiet
  | some l =>
    if l.capacity ≤ l.active then
      { quiet with
        reason := .kitchenBusy
        facts := { active := some l.active, capacity := some l.capacity, asOf := some l.asOf } }
    else quiet

/-- The branch of `resolve` for CANCELLING and CANCELLED. -/
def unwound : Verdict where
  reason := byCancelReason (t.cancelReason.getD "")
  overdue := none
  stage := "cancelled"
  stageElapsedS := none
  facts := { reachedKitchen := some t.acceptedAt.isSome, paymentHeld := some (paymentHeld t),
             unwindDone := some (t.status = "CANCELLED") }

/-- `resolve`. -/
def resolve : Verdict :=
  if t.status = "DELIVERED" ∨ t.status = "SETTLED" then
    { reason := .delivered
      overdue := none
      stage := "delivered"
      stageElapsedS := elapsedS t.pickedUpAt now }
  else if t.status = "REFUNDED" then
    { reason := .refunded
      overdue := none
      stage := "refunded"
      stageElapsedS := none
      facts := { cancelReason := some t.cancelReason } }
  else if t.status = "CANCELLING" ∨ t.status = "CANCELLED" then unwound t
  else if t.status = "PICKED_UP" then
    { reason := .inTransit
      overdue := none
      stage := "in_transit"
      stageElapsedS := elapsedS t.pickedUpAt now }
  else if t.status = "READY" then ready t now delivery budget
  else if t.status = "ACCEPTED" ∨ t.status = "PREPARING" then kitchen t now load
  else if t.status = "CONFIRMED" then
    let bound := bounded (elapsedS t.confirmedAt now) budget.acceptTimeoutS "accept_timeout_s"
      "until the restaurant accepts or the order is cancelled"
    { reason := .awaitingRestaurant
      overdue := bound.1
      stage := "awaiting_restaurant"
      stageElapsedS := elapsedS t.confirmedAt now
      eta := bound.2
      facts := { paymentHeld := some (paymentHeld t), unwindDone := some false } }
  else if t.status = "PLACED" ∨ t.status = "VALIDATED" ∨ t.status = "PAYMENT_CLEARED" then
    let bound := bounded (elapsedS (some t.placedAt) now) budget.forwardDeadlineS
      "forward_deadline_s" "until the order reaches the restaurant or is cancelled"
    { reason := .paymentInProgress
      overdue := bound.1
      stage := "payment_in_progress"
      stageElapsedS := elapsedS (some t.placedAt) now
      eta := bound.2
      facts := { paymentHeld := some (paymentHeld t), unwindDone := some false } }
  else
    { reason := .unknown
      overdue := none
      stage := "unknown"
      stageElapsedS := none
      facts := { status := some t.status } }

end

end Assistant.Explain
