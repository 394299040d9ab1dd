/-
`DeliveryWorkflow`, as a durable flow.

`run` and `_assign` are read off as in `Workflow`: the position is the await, with the
locals of the cascade and what the signal handlers have noted.

* Time enters by labels: a timer of a wait may end it at any moment, and `deadline`
  says that the clock has passed the cascade's deadline.
* A cancellation ends the await the workflow stands at.  A wait raises
  `asyncio.CancelledError`, which `run` catches for its clean-up; a pending activity
  raises `ActivityError`, which it does not catch.
-/
import SmartFoodOps.Lib.Durable
import SmartFoodOps.Order.Courier

open Durable Dispatch

namespace Order

namespace Delivery

/-- What `run` returns. -/
inductive Result
  | delivered
  | noRider
  deriving DecidableEq, Repr

/-- The activities, with the arguments besides the order. -/
inductive Activity
  | findAndOffer (attempt : ℕ) (exclude : List RiderId)
  | expireOffer (offer : OfferId) (rider : RiderId)
  | recordRider (rider : RiderId)
  | unassignStalled (rider : RiderId)
  | markPickedUp
  | markDelivered
  | cancelDispatch
  deriving DecidableEq, Repr

/-- An outcome of dispatch, or `None`. -/
inductive Answer
  | outcome (o : Outcome)
  | done
  deriving DecidableEq, Repr

/-- The await that the workflow stands at. -/
inductive Pc
  | awaitFood
  -- _assign
  | findAndOffer
  | breather
  | awaitAccept (offer : OfferId) (candidate : RiderId)
  | expireOffer (offer : OfferId) (candidate : RiderId)
  | recordRider (rider : RiderId)
  | awaitPickup (rider : RiderId)
  | unassignStalled (rider : RiderId)
  -- run
  | markPickedUp (rider : RiderId)
  | awaitDelivered (rider : RiderId)
  | markDelivered
  -- except asyncio.CancelledError
  | cancelDispatch
  | returned (result : Result)
  | failed
  | cancelled
  deriving DecidableEq, Repr

structure Pos where
  pc : Pc := .awaitFood
  attempt : ℕ := 0
  exclude : List RiderId := []
  pastDeadline : Bool := false
  told : CourierSignals := {}

/-- What is noted wherever the workflow is. -/
inductive News
  | signal (i : CourierSignal)
  | deadline
  deriving DecidableEq, Repr

/-- What ends a wait: its condition, its timer, or a cancellation, which also ends an
activity. -/
inductive Event
  | wake
  | timeout
  | cancel
  deriving DecidableEq, Repr

/-- The activity that the workflow awaits. -/
def activity (p : Pos) : Option Activity :=
  match p.pc with
  | .findAndOffer => some (.findAndOffer p.attempt p.exclude)
  | .expireOffer offer candidate => some (.expireOffer offer candidate)
  | .recordRider rider => some (.recordRider rider)
  | .unassignStalled rider => some (.unassignStalled rider)
  | .markPickedUp _ => some .markPickedUp
  | .markDelivered => some .markDelivered
  | .cancelDispatch => some .cancelDispatch
  | .awaitFood | .breather | .awaitAccept _ _ | .awaitPickup _ | .awaitDelivered _
  | .returned _ | .failed | .cancelled => none

/-- The head of the cascade's loop. -/
def nextRound (p : Pos) : Pos :=
  if p.pastDeadline then { p with pc := .returned .noRider }
  else { p with pc := .findAndOffer, attempt := p.attempt + 1 }

/-- What follows the result of the awaited activity. -/
def afterAnswer (p : Pos) (answer : Answer) : Pos :=
  match p.pc with
  | .findAndOffer =>
    match answer with
    | .outcome (.offered offer rider) => { p with pc := .awaitAccept offer rider }
    | _ => { p with pc := .breather }
  | .expireOffer _ candidate =>
    match answer with
    | .outcome (.alreadyAssigned rider) => { p with pc := .recordRider rider }
    | _ => nextRound { p with exclude := p.exclude ++ [candidate] }
  | .recordRider rider => { p with pc := .awaitPickup rider }
  | .unassignStalled rider =>
    match answer with
    | .outcome .alreadyPickedUp => { p with pc := .markPickedUp rider }
    | _ => nextRound { p with exclude := p.exclude ++ [rider] }
  | .markPickedUp rider => { p with pc := .awaitDelivered rider }
  | .markDelivered => { p with pc := .returned .delivered }
  | .cancelDispatch => { p with pc := .cancelled }
  | _ => p

/-- A failure that is not retried escapes `run`, except out of the clean-up. -/
def afterFailure (p : Pos) : Pos :=
  { p with pc := if p.pc = .cancelDispatch then .cancelled else .failed }

def cancel (p : Pos) : Option Pos :=
  match p.pc with
  | .awaitFood | .breather | .awaitAccept _ _ | .awaitPickup _ | .awaitDelivered _ =>
    some { p with pc := .cancelDispatch }
  | .findAndOffer | .expireOffer _ _ | .recordRider _ | .unassignStalled _ | .markPickedUp _
  | .markDelivered => some { p with pc := .failed }
  -- the clean-up is not cancelled again
  | .cancelDispatch | .returned _ | .failed | .cancelled => none

/-- What ends the wait that the workflow stands at. -/
def afterWait (p : Pos) : Event → Option Pos
  | .wake =>
    match p.pc with
    | .awaitFood => if p.told.foodReady then some (nextRound p) else none
    | .awaitAccept offer _ =>
      (p.told.accepted offer).map fun rider => { p with pc := .recordRider rider }
    | .awaitPickup rider =>
      if rider ∈ p.told.pickedUp then some { p with pc := .markPickedUp rider } else none
    | .awaitDelivered rider =>
      if rider ∈ p.told.delivered then some { p with pc := .markDelivered } else none
    | _ => none
  | .timeout =>
    match p.pc with
    | .breather => some (nextRound { p with exclude := [] })
    | .awaitAccept offer candidate => some { p with pc := .expireOffer offer candidate }
    | .awaitPickup rider => some { p with pc := .unassignStalled rider }
    | _ => none
  | .cancel => cancel p

def note (p : Pos) : News → Pos
  | .signal i => { p with told := p.told.raise i }
  | .deadline => { p with pastDeadline := true }

/-- `DeliveryWorkflow`: no activity has a deadline. -/
def flow : Flow Pos Activity Answer News Event where
  pending := activity
  bounded _ := false
  answered := afterAnswer
  refused := afterFailure
  expired p := p
  signal := note
  event := afterWait

@[simp] theorem note_pc (p : Pos) (n : News) : (note p n).pc = p.pc := by
  cases n <;> rfl

/-- The workflow has ended. -/
def Pc.closed : Pc → Bool
  | .returned _ | .failed | .cancelled => true
  | _ => false

/-- The workflow is suspended in a wait. -/
def Pc.waits : Pc → Bool
  | .awaitFood | .breather | .awaitAccept _ _ | .awaitPickup _ | .awaitDelivered _ => true
  | _ => false

/-- Where a new round leads. -/
theorem nextRound_pc (p : Pos) :
    (nextRound p).pc = .findAndOffer ∨ (nextRound p).pc = .returned .noRider := by
  unfold nextRound
  split
  · exact .inr rfl
  · exact .inl rfl

/-- A cancellation that a wait raises is followed by the clean-up, any other one is not. -/
theorem cancel_pc {p p' : Pos} (h : cancel p = some p') :
    p'.pc = if p.pc.waits then .cancelDispatch else .failed := by
  unfold cancel at h
  split at h <;> cases h <;> next hpc => rw [hpc]; rfl

/-- Only the result of the clean-up ends the workflow as cancelled. -/
theorem afterAnswer_cancelled {p : Pos} {answer : Answer} (ha : activity p ≠ none)
    (h : (afterAnswer p answer).pc = .cancelled) : p.pc = .cancelDispatch := by
  have hround : ∀ q : Pos, (nextRound q).pc ≠ .cancelled := by
    intro q hq
    rcases nextRound_pc q with hpc | hpc <;> rw [hpc] at hq <;> cases hq
  unfold afterAnswer at h
  split at h
  case h_7 hpc => exact hpc
  case h_8 => exact absurd (by rw [activity, h]) ha
  all_goals first | (split at h <;> first | cases h | exact absurd h (hround _)) | cases h

theorem afterFailure_cancelled {p : Pos} (h : (afterFailure p).pc = .cancelled) :
    p.pc = .cancelDispatch := by
  by_contra hn
  simp [afterFailure, hn] at h

/-- The end of a wait does not end the workflow as cancelled. -/
theorem afterWait_cancelled {p p' : Pos} {e : Event} (h : afterWait p e = some p') :
    p'.pc ≠ .cancelled := by
  have hround : ∀ q : Pos, (nextRound q).pc ≠ .cancelled := by
    intro q hq
    rcases nextRound_pc q with hpc | hpc <;> rw [hpc] at hq <;> cases hq
  cases e with
  | wake =>
    simp only [afterWait] at h
    split at h
    · split at h <;> cases h
      exact hround p
    · obtain ⟨rider, -, rfl⟩ := Option.map_eq_some_iff.mp h
      nofun
    · split at h <;> cases h
      nofun
    · split at h <;> cases h
      nofun
    · cases h
  | timeout =>
    simp only [afterWait] at h
    split at h <;> cases h
    · exact hround _
    · nofun
    · nofun
  | cancel =>
    rw [cancel_pc h]
    split <;> nofun

end Delivery

end Order
