/-
The operations of `DispatchService`, each run alone.

Every operation is a short sequence of conditional writes and reads on the two
tables; here they are straight-line functions.  `Interleaving` cuts the same
operations at each store call.

* The candidates of `find_and_offer` are given as the ranked list, each with the
  offer id that is minted for it: search and ranking read no guarded state.
* The courier relay is a port, as in the source: a function on whatever state the
  order service has, which may raise `OrderUnavailable`.
-/
import SmartFoodOps.Dispatch.Stores

namespace Dispatch

/-! ### The two tables -/

/-- `rider_state` and `deliveries`. -/
structure Tables where
  riders : RiderId → RiderState
  deliveries : OrderId → Option DeliveryRow

namespace Tables

def empty : Tables := ⟨fun _ => .absent, fun _ => none⟩

def setRider (t : Tables) (rider : RiderId) (s : RiderState) : Tables :=
  { t with riders := Function.update t.riders rider s }

def setDelivery (t : Tables) (order : OrderId) (row : DeliveryRow) : Tables :=
  { t with deliveries := Function.update t.deliveries order (some row) }

@[simp] theorem setRider_deliveries (t : Tables) (rider : RiderId) (s : RiderState) :
    (t.setRider rider s).deliveries = t.deliveries := rfl

@[simp] theorem setDelivery_riders (t : Tables) (order : OrderId) (row : DeliveryRow) :
    (t.setDelivery order row).riders = t.riders := rfl

@[simp] theorem setRider_riders (t : Tables) (rider : RiderId) (s : RiderState) :
    (t.setRider rider s).riders = Function.update t.riders rider s := rfl

@[simp] theorem setDelivery_deliveries (t : Tables) (order : OrderId) (row : DeliveryRow) :
    (t.setDelivery order row).deliveries = Function.update t.deliveries order (some row) := rfl

/-- A conditional write on one rider, with the store method's answer. -/
def onRider (t : Tables) (rider : RiderId) (write : RiderState → Option RiderState) :
    Tables × Bool :=
  match write (t.riders rider) with
  | some s => (t.setRider rider s, true)
  | none => (t, false)

/-- A conditional write on one delivery, with the store method's answer. -/
def onDelivery (t : Tables) (order : OrderId)
    (write : Option DeliveryRow → Option DeliveryRow) : Tables × Bool :=
  match write (t.deliveries order) with
  | some row => (t.setDelivery order row, true)
  | none => (t, false)

theorem onRider_cases (t : Tables) (rider : RiderId) (write : RiderState → Option RiderState) :
    (∃ s, write (t.riders rider) = some s ∧ t.onRider rider write = (t.setRider rider s, true)) ∨
      (write (t.riders rider) = none ∧ t.onRider rider write = (t, false)) := by
  cases h : write (t.riders rider) with
  | some s => exact .inl ⟨s, rfl, by simp [onRider, h]⟩
  | none => exact .inr ⟨rfl, by simp [onRider, h]⟩

theorem onDelivery_cases (t : Tables) (order : OrderId)
    (write : Option DeliveryRow → Option DeliveryRow) :
    (∃ row, write (t.deliveries order) = some row ∧
        t.onDelivery order write = (t.setDelivery order row, true)) ∨
      (write (t.deliveries order) = none ∧ t.onDelivery order write = (t, false)) := by
  cases h : write (t.deliveries order) with
  | some row => exact .inl ⟨row, rfl, by simp [onDelivery, h]⟩
  | none => exact .inr ⟨rfl, by simp [onDelivery, h]⟩

/-- `reserve` of the rider store, and so on for the methods below. -/
def reserve (t : Tables) (cap : ℕ) (rider : RiderId) (offer : OfferId) (order : OrderId) :
    Tables × Bool :=
  t.onRider rider fun s => s.reserve offer order cap

def accept (t : Tables) (rider : RiderId) (offer : OfferId) (order : OrderId) : Tables × Bool :=
  t.onRider rider fun s => s.accept offer order

def releaseOffer (t : Tables) (rider : RiderId) (offer : OfferId) : Tables × Bool :=
  t.onRider rider fun s => s.releaseOffer offer

def finishDelivery (t : Tables) (rider : RiderId) (order : OrderId) : Tables × Bool :=
  t.onRider rider fun s => s.finishDelivery order

def putOffering (t : Tables) (order : OrderId) (rider : RiderId) (offer : OfferId) :
    Tables × Bool :=
  t.onDelivery order fun row => DeliveryStore.putOffering row rider offer

def assign (t : Tables) (order : OrderId) (offer : OfferId) : Tables × Bool :=
  t.onDelivery order fun row => DeliveryStore.assign row offer

def markPickedUp (t : Tables) (order : OrderId) (rider : RiderId) : Tables × Bool :=
  t.onDelivery order fun row => DeliveryStore.markPickedUp row rider

def markDelivered (t : Tables) (order : OrderId) (rider : RiderId) : Tables × Bool :=
  t.onDelivery order fun row => DeliveryStore.markDelivered row rider

def unassign (t : Tables) (order : OrderId) (rider : RiderId) : Tables × Bool :=
  t.onDelivery order fun row => DeliveryStore.unassign row rider

def cancelFrom (t : Tables) (order : OrderId) (expected : DeliveryState) : Tables × Bool :=
  t.onDelivery order fun row => DeliveryStore.cancelFrom row expected

end Tables

/-! ### The cascade's operations -/

/-- What the operations answer. -/
inductive Outcome
  | offered (offer : OfferId) (rider : RiderId)
  | noCandidates
  | revoked
  | alreadyAssigned (rider : RiderId)
  | alreadyPickedUp
  | cancelled
  | kept (state : Option DeliveryState)
  | assigned
  | expired
  | ok
  | conflict
  deriving DecidableEq, Repr

/-- The first candidate whose reservation applies gets the offer.  The answer of
`put_offering` is ignored. -/
def findAndOffer (cap : ℕ) (t : Tables) (order : OrderId) :
    List (RiderId × OfferId) → Tables × Outcome
  | [] => (t, .noCandidates)
  | (rider, offer) :: candidates =>
    match t.reserve cap rider offer order with
    | (t, false) => findAndOffer cap t order candidates
    | (t, true) => ((t.putOffering order rider offer).1, .offered offer rider)

/-- The states that tell an expired offer that its accept came first. -/
def taken (state : DeliveryState) : Bool :=
  state = .assigned ∨ state = .pickedUp ∨ state = .delivered

/-- What `expire_offer` reads off the row when the lock was not there. -/
def expiredBy (row : Option DeliveryRow) : Outcome :=
  match row with
  | some r => if taken r.state then .alreadyAssigned r.riderId else .revoked
  | none => .revoked

def expireOffer (t : Tables) (order : OrderId) (offer : OfferId) (rider : RiderId) :
    Tables × Outcome :=
  match t.releaseOffer rider offer with
  | (t, true) => (t, .revoked)
  | (t, false) => (t, expiredBy (t.deliveries order))

def unassignStalled (t : Tables) (order : OrderId) (rider : RiderId) : Tables × Outcome :=
  match t.unassign order rider with
  | (t, false) => (t, .alreadyPickedUp)
  | (t, true) => ((t.finishDelivery rider order).1, .revoked)

/-- Free what the row that was read names. -/
def freeHeld (t : Tables) (order : OrderId) (row : Option DeliveryRow) : Tables :=
  match row with
  | none => t
  | some r => ((t.releaseOffer r.riderId r.offerId).1.finishDelivery r.riderId order).1

def cancel (t : Tables) (order : OrderId) : Tables × Outcome :=
  let row := t.deliveries order
  match t.cancelFrom order .offering with
  | (t, true) => (freeHeld t order row, .cancelled)
  | (t, false) =>
    match t.cancelFrom order .assigned with
    | (t, true) => (freeHeld t order row, .cancelled)
    | (t, false) => (t, .kept (row.map (·.state)))

/-! ### The rider's taps -/

inductive CourierEvent
  | accepted
  | pickedUp
  | delivered
  deriving DecidableEq, Repr

/-- What `CourierEvents.send` does: answer, or raise `OrderUnavailable`. -/
inductive Sent
  | ok
  | gone
  | unavailable
  deriving DecidableEq, Repr

/-- The relay to the order service, over its state `ω`. -/
abbrev Courier (ω : Type*) := ω → OrderId → CourierEvent → RiderId → ω × Sent

variable {ω : Type*}

/-- `None` is the exception the surface turns into a 503. -/
def relay (send : Courier ω) (w : ω) (order : OrderId) (event : CourierEvent) (rider : RiderId)
    (answer : Outcome) : ω × Option Outcome :=
  match send w order event rider with
  | (w, .unavailable) => (w, none)
  | (w, _) => (w, some answer)

/-- The row of an accept that already applied. -/
def acceptedBefore (row : Option DeliveryRow) (rider : RiderId) (offer : OfferId) : Bool :=
  row.any fun r => r.riderId == rider && r.offerId == offer && taken r.state

/-- `_is_replay`. -/
def isReplay (row : Option DeliveryRow) (rider : RiderId) (states : List DeliveryState) : Bool :=
  row.any fun r => r.riderId == rider && states.contains r.state

/-- The answer of `assign` is ignored. -/
def acceptOffer (send : Courier ω) (t : Tables) (w : ω) (rider : RiderId) (offer : OfferId)
    (order : OrderId) : Tables × ω × Option Outcome :=
  match t.accept rider offer order with
  | (t, false) =>
    if acceptedBefore (t.deliveries order) rider offer then
      (t, relay send w order .accepted rider .assigned)
    else (t, w, some .expired)
  | (t, true) => ((t.assign order offer).1, relay send w order .accepted rider .assigned)

def pickedUp (send : Courier ω) (t : Tables) (w : ω) (rider : RiderId) (order : OrderId) :
    Tables × ω × Option Outcome :=
  match t.markPickedUp order rider with
  | (t, moved) =>
    if !moved && !isReplay (t.deliveries order) rider [.pickedUp, .delivered] then
      (t, w, some .conflict)
    else (t, relay send w order .pickedUp rider .ok)

def delivered (send : Courier ω) (t : Tables) (w : ω) (rider : RiderId) (order : OrderId) :
    Tables × ω × Option Outcome :=
  match t.markDelivered order rider with
  | (t, moved) =>
    if !moved && !isReplay (t.deliveries order) rider [.delivered] then (t, w, some .conflict)
    else ((t.finishDelivery rider order).1, relay send w order .delivered rider .ok)

end Dispatch
