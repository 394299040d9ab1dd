/-
The DynamoDB stores of dispatch: every mutation is one conditional write.

A conditional write is a partial function on the item it addresses: `none` is
the ConditionalCheckFailedException that the store methods turn into `False`.

* `RiderState` — the item of `rider_state`: presence, the offer lock, the
  string set `active_deliveries`, the accept statistics.  A missing item
  satisfies the same conditions as `RiderState.absent`, so the table is total;
* `DeliveryRow` — the item of `deliveries`, with the columns that the guards and
  the service read.
-/
import Mathlib.Data.Finset.Card
import Mathlib.Logic.Function.Basic

namespace Dispatch

abbrev RiderId := String
abbrev OrderId := String
abbrev OfferId := String

/-! ### rider_state -/

inductive Presence
  | offline
  | online
  deriving DecidableEq, Repr

/-- The map stored under `offer_lock`. -/
structure OfferLock where
  offerId : OfferId
  orderId : OrderId
  deriving DecidableEq, Repr

structure RiderState where
  status : Presence
  offerLock : Option OfferLock
  activeDeliveries : Finset OrderId
  offersMade : ℕ
  offersAccepted : ℕ
  deriving DecidableEq

namespace RiderState

/-- What the conditions see of a rider without an item. -/
def absent : RiderState :=
  { status := .offline, offerLock := none, activeDeliveries := ∅,
    offersMade := 0, offersAccepted := 0 }

def setOnline (s : RiderState) : RiderState := { s with status := .online }

def setOffline (s : RiderState) : RiderState := { s with status := .offline }

/-- Take the lock: no lock held, below the cap, online. -/
def reserve (s : RiderState) (offerId : OfferId) (orderId : OrderId) (cap : ℕ) :
    Option RiderState :=
  if s.offerLock = none ∧ (s.activeDeliveries = ∅ ∨ s.activeDeliveries.card < cap) ∧
      s.status = .online then
    some { s with offerLock := some ⟨offerId, orderId⟩, offersMade := s.offersMade + 1 }
  else none

/-- `offer_lock.offer_id = :oid`. -/
def locks (s : RiderState) (offerId : OfferId) : Bool :=
  s.offerLock.any fun lock => lock.offerId == offerId

/-- Lock to assignment.  The order added to the set is the caller's, not the lock's. -/
def accept (s : RiderState) (offerId : OfferId) (orderId : OrderId) : Option RiderState :=
  if s.locks offerId then
    some { s with offerLock := none, activeDeliveries := insert orderId s.activeDeliveries,
                  offersAccepted := s.offersAccepted + 1 }
  else none

def releaseOffer (s : RiderState) (offerId : OfferId) : Option RiderState :=
  if s.locks offerId then some { s with offerLock := none } else none

def finishDelivery (s : RiderState) (orderId : OrderId) : Option RiderState :=
  if orderId ∈ s.activeDeliveries then
    some { s with activeDeliveries := s.activeDeliveries.erase orderId }
  else none

end RiderState

/-! ### deliveries -/

inductive DeliveryState
  | offering
  | assigned
  | pickedUp
  | delivered
  | cancelled
  deriving DecidableEq, Repr

structure DeliveryRow where
  state : DeliveryState
  riderId : RiderId
  offerId : OfferId
  deriving DecidableEq, Repr

namespace DeliveryRow

/-- The row is held by a rider who has not handed the food over. -/
def carriedBy (row : DeliveryRow) (rider : RiderId) : Prop :=
  (row.state = .assigned ∨ row.state = .pickedUp) ∧ row.riderId = rider

instance (row : DeliveryRow) (rider : RiderId) : Decidable (row.carriedBy rider) :=
  inferInstanceAs (Decidable (_ ∧ _))

/-- No conditional write applies to the row any more. -/
def terminal (row : DeliveryRow) : Prop :=
  row.state = .delivered ∨ row.state = .cancelled

instance (row : DeliveryRow) : Decidable row.terminal :=
  inferInstanceAs (Decidable (_ ∨ _))

end DeliveryRow

namespace DeliveryStore

/-- Only a missing row or a prior OFFERING may be overwritten. -/
def putOffering (row : Option DeliveryRow) (riderId : RiderId) (offerId : OfferId) :
    Option DeliveryRow :=
  match row with
  | none => some ⟨.offering, riderId, offerId⟩
  | some r => if r.state = .offering then some ⟨.offering, riderId, offerId⟩ else none

/-- `_transition`: one guarded state move. -/
def transition (row : Option DeliveryRow) (expected target : DeliveryState)
    (guardOffer : Option OfferId) (guardRider : Option RiderId) : Option DeliveryRow :=
  match row with
  | none => none
  | some r =>
    if r.state = expected ∧ (∀ oid ∈ guardOffer, r.offerId = oid) ∧
        (∀ rider ∈ guardRider, r.riderId = rider) then
      some { r with state := target }
    else none

def assign (row : Option DeliveryRow) (offerId : OfferId) : Option DeliveryRow :=
  transition row .offering .assigned (some offerId) none

def markPickedUp (row : Option DeliveryRow) (riderId : RiderId) : Option DeliveryRow :=
  transition row .assigned .pickedUp none (some riderId)

def markDelivered (row : Option DeliveryRow) (riderId : RiderId) : Option DeliveryRow :=
  transition row .pickedUp .delivered none (some riderId)

def unassign (row : Option DeliveryRow) (riderId : RiderId) : Option DeliveryRow :=
  transition row .assigned .offering none (some riderId)

/-- One round of the loop in `cancel`. -/
def cancelFrom (row : Option DeliveryRow) (expected : DeliveryState) : Option DeliveryRow :=
  transition row expected .cancelled none none

/-- `cancel`: first from OFFERING, then from ASSIGNED. -/
def cancel (row : Option DeliveryRow) : Option DeliveryRow :=
  (cancelFrom row .offering).or (cancelFrom row .assigned)

end DeliveryStore

/-! ### What a write that applied says about the item -/

namespace RiderState

variable {s t : RiderState} {offer : OfferId} {order : OrderId} {cap : ℕ}

theorem locks_iff : s.locks offer = true ↔ ∃ order, s.offerLock = some ⟨offer, order⟩ := by
  cases h : s.offerLock with
  | none => simp [locks, h]
  | some lock =>
    obtain ⟨oid, order⟩ := lock
    simp [locks, h]

theorem reserve_eq (h : s.reserve offer order cap = some t) :
    s.offerLock = none ∧ t.offerLock = some ⟨offer, order⟩ ∧
      t.activeDeliveries = s.activeDeliveries := by
  unfold reserve at h
  split at h
  · next hc =>
    cases h
    exact ⟨hc.1, rfl, rfl⟩
  · cases h

theorem accept_eq (h : s.accept offer order = some t) :
    (∃ d, s.offerLock = some ⟨offer, d⟩) ∧ t.offerLock = none ∧
      t.activeDeliveries = insert order s.activeDeliveries := by
  unfold accept at h
  split at h
  · next hl =>
    cases h
    exact ⟨locks_iff.mp hl, rfl, rfl⟩
  · cases h

theorem releaseOffer_eq (h : s.releaseOffer offer = some t) :
    (∃ d, s.offerLock = some ⟨offer, d⟩) ∧ t.offerLock = none ∧
      t.activeDeliveries = s.activeDeliveries := by
  unfold releaseOffer at h
  split at h
  · next hl =>
    cases h
    exact ⟨locks_iff.mp hl, rfl, rfl⟩
  · cases h

theorem releaseOffer_eq_none (h : s.releaseOffer offer = none) :
    ∀ d, s.offerLock ≠ some ⟨offer, d⟩ := by
  intro d hd
  unfold releaseOffer at h
  rw [if_pos (locks_iff.mpr ⟨d, hd⟩)] at h
  cases h

theorem finishDelivery_eq (h : s.finishDelivery order = some t) :
    order ∈ s.activeDeliveries ∧ t.offerLock = s.offerLock ∧
      t.activeDeliveries = s.activeDeliveries.erase order := by
  unfold finishDelivery at h
  split at h
  · next hm =>
    cases h
    exact ⟨hm, rfl, rfl⟩
  · cases h

theorem finishDelivery_eq_none (h : s.finishDelivery order = none) :
    order ∉ s.activeDeliveries := by
  intro hm
  unfold finishDelivery at h
  rw [if_pos hm] at h
  cases h

end RiderState

namespace DeliveryStore

variable {row : Option DeliveryRow} {r : DeliveryRow} {rider : RiderId} {offer : OfferId}
  {expected target : DeliveryState} {guardOffer : Option OfferId} {guardRider : Option RiderId}

theorem putOffering_eq (h : putOffering row rider offer = some r) :
    r = ⟨.offering, rider, offer⟩ ∧ ∀ q, row = some q → q.state = .offering := by
  cases row with
  | none =>
    cases h
    exact ⟨rfl, by simp⟩
  | some q =>
    simp only [putOffering] at h
    split at h
    · next hq =>
      cases h
      exact ⟨rfl, fun _ hq' => by cases hq'; exact hq⟩
    · cases h

theorem transition_eq (h : transition row expected target guardOffer guardRider = some r) :
    ∃ q, row = some q ∧ q.state = expected ∧ (∀ oid ∈ guardOffer, q.offerId = oid) ∧
      (∀ rider ∈ guardRider, q.riderId = rider) ∧ r = { q with state := target } := by
  cases row with
  | none => cases h
  | some q =>
    simp only [transition] at h
    split at h
    · next hq =>
      cases h
      exact ⟨q, rfl, hq.1, hq.2.1, hq.2.2, rfl⟩
    · cases h

theorem assign_eq (h : assign row offer = some r) :
    ∃ q, row = some q ∧ q.state = .offering ∧ q.offerId = offer ∧
      r = { q with state := .assigned } := by
  obtain ⟨q, hq, hs, ho, -, rfl⟩ := transition_eq h
  exact ⟨q, hq, hs, ho offer rfl, rfl⟩

theorem markPickedUp_eq (h : markPickedUp row rider = some r) :
    ∃ q, row = some q ∧ q.state = .assigned ∧ q.riderId = rider ∧
      r = { q with state := .pickedUp } := by
  obtain ⟨q, hq, hs, -, hr, rfl⟩ := transition_eq h
  exact ⟨q, hq, hs, hr rider rfl, rfl⟩

theorem markDelivered_eq (h : markDelivered row rider = some r) :
    ∃ q, row = some q ∧ q.state = .pickedUp ∧ q.riderId = rider ∧
      r = { q with state := .delivered } := by
  obtain ⟨q, hq, hs, -, hr, rfl⟩ := transition_eq h
  exact ⟨q, hq, hs, hr rider rfl, rfl⟩

theorem unassign_eq (h : unassign row rider = some r) :
    ∃ q, row = some q ∧ q.state = .assigned ∧ q.riderId = rider ∧
      r = { q with state := .offering } := by
  obtain ⟨q, hq, hs, -, hr, rfl⟩ := transition_eq h
  exact ⟨q, hq, hs, hr rider rfl, rfl⟩

theorem cancelFrom_eq (h : cancelFrom row expected = some r) :
    ∃ q, row = some q ∧ q.state = expected ∧ r = { q with state := .cancelled } := by
  obtain ⟨q, hq, hs, -, -, rfl⟩ := transition_eq h
  exact ⟨q, hq, hs, rfl⟩

theorem cancelFrom_eq_none {q : DeliveryRow} (hq : row = some q)
    (h : cancelFrom row expected = none) : q.state ≠ expected := by
  intro hs
  subst hq
  simp [cancelFrom, transition, hs] at h

end DeliveryStore

end Dispatch
