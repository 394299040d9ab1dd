/-
Dispatch operations, interleaved at every store call.

An operation in progress is the store call it makes next, with the values the
code holds at that point (`Op`); `opStep` makes that call.  The system runs any
number of operations over the two tables, one store call at a time.  Offer ids
are uuids: an id that was ever used for an offer is not minted again.

The `_alone` theorems say that an operation nobody interferes with is the
straight-line function of `Service`; `Taps` says so of the rider's taps.
-/
import SmartFoodOps.Lib.Machine
import SmartFoodOps.Dispatch.Service

open Machine

namespace Dispatch

/-! ### Operations -/

inductive Call
  | findAndOffer (order : OrderId) (candidates : List RiderId)
  | expireOffer (order : OrderId) (offer : OfferId) (rider : RiderId)
  | unassignStalled (order : OrderId) (rider : RiderId)
  | cancel (order : OrderId)
  | acceptOffer (rider : RiderId) (offer : OfferId) (order : OrderId)
  | pickedUp (rider : RiderId) (order : OrderId)
  | delivered (rider : RiderId) (order : OrderId)
  deriving DecidableEq, Repr

/-- An operation between two store calls. -/
inductive Op
  -- find_and_offer
  | reserve (order : OrderId) (candidates : List RiderId)
  | putOffering (order : OrderId) (rider : RiderId) (offer : OfferId)
  -- expire_offer
  | releaseExpired (order : OrderId) (offer : OfferId) (rider : RiderId)
  | readExpired (order : OrderId)
  -- unassign_stalled
  | unassign (order : OrderId) (rider : RiderId)
  | finishUnassigned (order : OrderId) (rider : RiderId)
  -- cancel, with the row it read
  | readCancelled (order : OrderId)
  | cancelOffering (order : OrderId) (seen : Option DeliveryRow)
  | cancelAssigned (order : OrderId) (seen : Option DeliveryRow)
  | releaseCancelled (order : OrderId) (seen : DeliveryRow)
  | finishCancelled (order : OrderId) (seen : DeliveryRow)
  -- accept_offer
  | accept (rider : RiderId) (offer : OfferId) (order : OrderId)
  | readAccepted (rider : RiderId) (offer : OfferId) (order : OrderId)
  | assign (rider : RiderId) (offer : OfferId) (order : OrderId)
  -- picked_up
  | markPickedUp (rider : RiderId) (order : OrderId)
  | readPickedUp (rider : RiderId) (order : OrderId)
  -- delivered
  | markDelivered (rider : RiderId) (order : OrderId)
  | readDelivered (rider : RiderId) (order : OrderId)
  | finishDelivered (rider : RiderId) (order : OrderId)
  | answered (outcome : Outcome)
  deriving DecidableEq, Repr

/-- The first store call of an operation. -/
def Call.begin : Call → Op
  | findAndOffer order candidates => .reserve order candidates
  | expireOffer order offer rider => .releaseExpired order offer rider
  | unassignStalled order rider => .unassign order rider
  | cancel order => .readCancelled order
  | acceptOffer rider offer order => .accept rider offer order
  | pickedUp rider order => .markPickedUp rider order
  | delivered rider order => .markDelivered rider order

/-- What a `cancel` does once its write has applied. -/
def freeing (order : OrderId) : Option DeliveryRow → Op
  | none => .answered .cancelled
  | some seen => .releaseCancelled order seen

/-- One store call; `fresh` is the offer id minted for the next candidate. -/
def opStep (cap : ℕ) (fresh : OfferId) (t : Tables) : Op → Option (Tables × Op)
  | .reserve _ [] => some (t, .answered .noCandidates)
  | .reserve order (rider :: candidates) =>
    match t.reserve cap rider fresh order with
    | (t, true) => some (t, .putOffering order rider fresh)
    | (t, false) => some (t, .reserve order candidates)
  | .putOffering order rider offer =>
    some ((t.putOffering order rider offer).1, .answered (.offered offer rider))
  | .releaseExpired order offer rider =>
    match t.releaseOffer rider offer with
    | (t, true) => some (t, .answered .revoked)
    | (t, false) => some (t, .readExpired order)
  | .readExpired order => some (t, .answered (expiredBy (t.deliveries order)))
  | .unassign order rider =>
    match t.unassign order rider with
    | (t, true) => some (t, .finishUnassigned order rider)
    | (t, false) => some (t, .answered .alreadyPickedUp)
  | .finishUnassigned order rider =>
    some ((t.finishDelivery rider order).1, .answered .revoked)
  | .readCancelled order => some (t, .cancelOffering order (t.deliveries order))
  | .cancelOffering order seen =>
    match t.cancelFrom order .offering with
    | (t, true) => some (t, freeing order seen)
    | (t, false) => some (t, .cancelAssigned order seen)
  | .cancelAssigned order seen =>
    match t.cancelFrom order .assigned with
    | (t, true) => some (t, freeing order seen)
    | (t, false) => some (t, .answered (.kept (seen.map (·.state))))
  | .releaseCancelled order seen =>
    some ((t.releaseOffer seen.riderId seen.offerId).1, .finishCancelled order seen)
  | .finishCancelled order seen =>
    some ((t.finishDelivery seen.riderId order).1, .answered .cancelled)
  | .accept rider offer order =>
    match t.accept rider offer order with
    | (t, true) => some (t, .assign rider offer order)
    | (t, false) => some (t, .readAccepted rider offer order)
  | .readAccepted rider offer order =>
    some (t, .answered (if acceptedBefore (t.deliveries order) rider offer then .assigned
      else .expired))
  | .assign _ offer order => some ((t.assign order offer).1, .answered .assigned)
  | .markPickedUp rider order =>
    match t.markPickedUp order rider with
    | (t, true) => some (t, .answered .ok)
    | (t, false) => some (t, .readPickedUp rider order)
  | .readPickedUp rider order =>
    some (t, .answered (if isReplay (t.deliveries order) rider [.pickedUp, .delivered] then .ok
      else .conflict))
  | .markDelivered rider order =>
    match t.markDelivered order rider with
    | (t, true) => some (t, .finishDelivered rider order)
    | (t, false) => some (t, .readDelivered rider order)
  | .readDelivered rider order =>
    if isReplay (t.deliveries order) rider [.delivered] then
      some (t, .finishDelivered rider order)
    else some (t, .answered .conflict)
  | .finishDelivered rider order => some ((t.finishDelivery rider order).1, .answered .ok)
  | .answered _ => none

/-- What a store call does to the tables, and what the operation does next. -/
inductive Does (cap : ℕ) (fresh : OfferId) (t : Tables) : Op → Tables → Op → Prop
  | unoffered {order} : Does cap fresh t (.reserve order []) t (.answered .noCandidates)
  | reserves {order rider candidates} (h : (t.reserve cap rider fresh order).2 = true) :
      Does cap fresh t (.reserve order (rider :: candidates)) (t.reserve cap rider fresh order).1
        (.putOffering order rider fresh)
  | passesOver {order rider candidates} (h : (t.reserve cap rider fresh order).2 = false) :
      Does cap fresh t (.reserve order (rider :: candidates)) (t.reserve cap rider fresh order).1
        (.reserve order candidates)
  | puts {order rider offer} :
      Does cap fresh t (.putOffering order rider offer) (t.putOffering order rider offer).1
        (.answered (.offered offer rider))
  | releases {order offer rider} (h : (t.releaseOffer rider offer).2 = true) :
      Does cap fresh t (.releaseExpired order offer rider) (t.releaseOffer rider offer).1
        (.answered .revoked)
  | findsNoLock {order offer rider} (h : (t.releaseOffer rider offer).2 = false) :
      Does cap fresh t (.releaseExpired order offer rider) (t.releaseOffer rider offer).1
        (.readExpired order)
  | readsExpired {order} :
      Does cap fresh t (.readExpired order) t (.answered (expiredBy (t.deliveries order)))
  | unassigns {order rider} (h : (t.unassign order rider).2 = true) :
      Does cap fresh t (.unassign order rider) (t.unassign order rider).1
        (.finishUnassigned order rider)
  | findsPickedUp {order rider} (h : (t.unassign order rider).2 = false) :
      Does cap fresh t (.unassign order rider) (t.unassign order rider).1
        (.answered .alreadyPickedUp)
  | finishesUnassigned {order rider} :
      Does cap fresh t (.finishUnassigned order rider) (t.finishDelivery rider order).1
        (.answered .revoked)
  | readsCancelled {order} :
      Does cap fresh t (.readCancelled order) t (.cancelOffering order (t.deliveries order))
  | cancelsUnseen {order} (h : (t.cancelFrom order .offering).2 = true) :
      Does cap fresh t (.cancelOffering order none) (t.cancelFrom order .offering).1
        (.answered .cancelled)
  | cancelsOffering {order seen} (h : (t.cancelFrom order .offering).2 = true) :
      Does cap fresh t (.cancelOffering order (some seen)) (t.cancelFrom order .offering).1
        (.releaseCancelled order seen)
  | findsNoOffering {order seen} (h : (t.cancelFrom order .offering).2 = false) :
      Does cap fresh t (.cancelOffering order seen) (t.cancelFrom order .offering).1
        (.cancelAssigned order seen)
  | cancelsUnseenAssigned {order} (h : (t.cancelFrom order .assigned).2 = true) :
      Does cap fresh t (.cancelAssigned order none) (t.cancelFrom order .assigned).1
        (.answered .cancelled)
  | cancelsAssigned {order seen} (h : (t.cancelFrom order .assigned).2 = true) :
      Does cap fresh t (.cancelAssigned order (some seen)) (t.cancelFrom order .assigned).1
        (.releaseCancelled order seen)
  | keeps {order seen} (h : (t.cancelFrom order .assigned).2 = false) :
      Does cap fresh t (.cancelAssigned order seen) (t.cancelFrom order .assigned).1
        (.answered (.kept (seen.map (·.state))))
  | releasesCancelled {order seen} :
      Does cap fresh t (.releaseCancelled order seen)
        (t.releaseOffer seen.riderId seen.offerId).1 (.finishCancelled order seen)
  | finishesCancelled {order seen} :
      Does cap fresh t (.finishCancelled order seen) (t.finishDelivery seen.riderId order).1
        (.answered .cancelled)
  | accepts {rider offer order} (h : (t.accept rider offer order).2 = true) :
      Does cap fresh t (.accept rider offer order) (t.accept rider offer order).1
        (.assign rider offer order)
  | comesTooLate {rider offer order} (h : (t.accept rider offer order).2 = false) :
      Does cap fresh t (.accept rider offer order) (t.accept rider offer order).1
        (.readAccepted rider offer order)
  | readsAccepted {rider offer order} :
      Does cap fresh t (.readAccepted rider offer order) t
        (.answered (if acceptedBefore (t.deliveries order) rider offer then .assigned
          else .expired))
  | assigns {rider offer order} :
      Does cap fresh t (.assign rider offer order) (t.assign order offer).1 (.answered .assigned)
  | marksPickedUp {rider order} (h : (t.markPickedUp order rider).2 = true) :
      Does cap fresh t (.markPickedUp rider order) (t.markPickedUp order rider).1 (.answered .ok)
  | findsNotAssigned {rider order} (h : (t.markPickedUp order rider).2 = false) :
      Does cap fresh t (.markPickedUp rider order) (t.markPickedUp order rider).1
        (.readPickedUp rider order)
  | readsPickedUp {rider order} :
      Does cap fresh t (.readPickedUp rider order) t
        (.answered (if isReplay (t.deliveries order) rider [.pickedUp, .delivered] then .ok
          else .conflict))
  | marksDelivered {rider order} (h : (t.markDelivered order rider).2 = true) :
      Does cap fresh t (.markDelivered rider order) (t.markDelivered order rider).1
        (.finishDelivered rider order)
  | findsNotPickedUp {rider order} (h : (t.markDelivered order rider).2 = false) :
      Does cap fresh t (.markDelivered rider order) (t.markDelivered order rider).1
        (.readDelivered rider order)
  | replaysDelivered {rider order}
      (h : isReplay (t.deliveries order) rider [.delivered] = true) :
      Does cap fresh t (.readDelivered rider order) t (.finishDelivered rider order)
  | conflicts {rider order} : Does cap fresh t (.readDelivered rider order) t (.answered .conflict)
  | finishesDelivered {rider order} :
      Does cap fresh t (.finishDelivered rider order) (t.finishDelivery rider order).1
        (.answered .ok)

theorem does {cap : ℕ} {fresh : OfferId} {t t' : Tables} {op op' : Op}
    (h : opStep cap fresh t op = some (t', op')) : Does cap fresh t op t' op' := by
  cases op with
  | reserve order candidates =>
    cases candidates with
    | nil => cases h; exact .unoffered
    | cons rider candidates =>
      simp only [opStep] at h
      split at h <;> next hw => cases h; cases congrArg Prod.fst hw; constructor; rw [hw]
  | releaseExpired | unassign | accept | markPickedUp | markDelivered =>
    simp only [opStep] at h
    split at h <;> next hw => cases h; cases congrArg Prod.fst hw; constructor; rw [hw]
  | cancelOffering order seen | cancelAssigned order seen =>
    simp only [opStep] at h
    split at h <;> next hw =>
      cases h; cases congrArg Prod.fst hw; cases seen <;> constructor <;> rw [hw]
  | readDelivered rider order =>
    simp only [opStep] at h
    split at h
    · next hreplay => cases h; exact .replaysDelivered hreplay
    · cases h; exact .conflicts
  | answered => cases h
  | _ => cases h; constructor

/-! ### The system -/

structure System where
  tables : Tables
  /-- Whom and what every offer id was minted for. -/
  made : OfferId → Option (RiderId × OrderId)
  /-- The operations ever started, by process id. -/
  ops : List Op

inductive Event
  | start (call : Call)
  | run (pid : ℕ) (fresh : OfferId)
  | online (rider : RiderId)
  | offline (rider : RiderId)
  deriving DecidableEq, Repr

def System.empty : System := ⟨.empty, fun _ => none, []⟩

/-- The offer a store call has just locked a rider for. -/
def Op.making : Op → Option (OfferId × RiderId × OrderId)
  | .putOffering order rider offer => some (offer, rider, order)
  | _ => none

/-- The offers made once an operation has come to `op`. -/
def record (made : OfferId → Option (RiderId × OrderId)) (op : Op) :
    OfferId → Option (RiderId × OrderId) :=
  match op.making with
  | some (offer, who) => Function.update made offer (some who)
  | none => made

def step (cap : ℕ) (s : System) : Event → Option System
  | .start call => some { s with ops := s.ops ++ [call.begin] }
  | .run pid fresh =>
    match s.ops[pid]? with
    | none => none
    | some op =>
      if s.made fresh = none then
        (opStep cap fresh s.tables op).map fun (t, op) =>
          { tables := t, made := record s.made op, ops := s.ops.set pid op }
      else none
  | .online rider =>
    some { s with tables := s.tables.setRider rider (s.tables.riders rider).setOnline }
  | .offline rider =>
    some { s with tables := s.tables.setRider rider (s.tables.riders rider).setOffline }

def Op.isAnswered : Op → Bool
  | .answered _ => true
  | _ => false

/-- No operation is in flight. -/
def Quiet (s : System) : Prop :=
  ∀ op ∈ s.ops, op.isAnswered = true

instance (s : System) : Decidable (Quiet s) :=
  inferInstanceAs (Decidable (∀ op ∈ s.ops, op.isAnswered = true))

/-- What a step can do: start an operation, make one store call of an operation, or
change a rider's presence. -/
theorem step_cases {cap : ℕ} {s u : System} {e : Event} (h : step cap s e = some u) :
    (∃ call, e = .start call ∧ u = { s with ops := s.ops ++ [call.begin] }) ∨
    (∃ pid fresh op t op', e = .run pid fresh ∧ s.ops[pid]? = some op ∧ s.made fresh = none ∧
      opStep cap fresh s.tables op = some (t, op') ∧
      u = ⟨t, record s.made op', s.ops.set pid op'⟩) ∨
    (∃ rider p, (e = .online rider ∨ e = .offline rider) ∧
      u = ⟨s.tables.setRider rider { s.tables.riders rider with status := p }, s.made, s.ops⟩) := by
  cases e with
  | start call => exact .inl ⟨call, rfl, (Option.some.inj h).symm⟩
  | run pid fresh =>
    simp only [step] at h
    split at h
    · cases h
    · next op hop =>
      split at h
      · next hfresh =>
        obtain ⟨⟨t, op'⟩, hstep, rfl⟩ := Option.map_eq_some_iff.mp h
        exact .inr (.inl ⟨pid, fresh, op, t, op', rfl, hop, hfresh, hstep, rfl⟩)
      · cases h
  | online rider => exact .inr (.inr ⟨rider, .online, .inl rfl, (Option.some.inj h).symm⟩)
  | offline rider => exact .inr (.inr ⟨rider, .offline, .inr rfl, (Option.some.inj h).symm⟩)

/-! ### Operations nobody interferes with -/

/-- One operation alone on the tables; the labels are the ids it may mint. -/
def soloStep (cap : ℕ) (s : Tables × Op) (fresh : OfferId) : Option (Tables × Op) :=
  opStep cap fresh s.1 s.2

/-- A relay that is always answered. -/
def ack : Courier Unit := fun w _ _ _ => (w, .ok)

variable (cap : ℕ) (t : Tables) (order : OrderId) (offer : OfferId) (rider : RiderId)

-- an operation alone is executed store call by store call
attribute [local simp] soloStep Call.begin opStep

theorem findAndOffer_alone (candidates : List (RiderId × OfferId)) :
    ∃ mints, exec (soloStep cap) (t, .reserve order (candidates.map Prod.fst)) mints =
      some ((findAndOffer cap t order candidates).1,
        .answered (findAndOffer cap t order candidates).2) := by
  induction candidates generalizing t with
  | nil => exact ⟨[""], rfl⟩
  | cons c candidates ih =>
    obtain ⟨rider, offer⟩ := c
    rcases hr : t.reserve cap rider offer order with ⟨t', _ | _⟩
    · obtain ⟨mints, hm⟩ := ih t'
      refine ⟨offer :: mints, ?_⟩
      simpa [hr, findAndOffer] using hm
    · exact ⟨[offer, offer], by simp [hr, findAndOffer]⟩

theorem expireOffer_alone :
    ∃ mints, exec (soloStep cap) (t, (Call.expireOffer order offer rider).begin) mints =
      some ((expireOffer t order offer rider).1,
        .answered (expireOffer t order offer rider).2) := by
  rcases hr : t.releaseOffer rider offer with ⟨t', _ | _⟩
  · exact ⟨["", ""], by simp [hr, expireOffer]⟩
  · exact ⟨[""], by simp [hr, expireOffer]⟩

theorem unassignStalled_alone :
    ∃ mints, exec (soloStep cap) (t, (Call.unassignStalled order rider).begin) mints =
      some ((unassignStalled t order rider).1,
        .answered (unassignStalled t order rider).2) := by
  rcases hr : t.unassign order rider with ⟨t', _ | _⟩
  · exact ⟨[""], by simp [hr, unassignStalled]⟩
  · exact ⟨["", ""], by simp [hr, unassignStalled]⟩

/-- The freeing of a cancel, once its write has applied. -/
theorem freeing_alone (seen : Option DeliveryRow) :
    ∃ mints, exec (soloStep cap) (t, freeing order seen) mints =
      some (freeHeld t order seen, .answered .cancelled) := by
  cases seen with
  | none => exact ⟨[], rfl⟩
  | some r => exact ⟨["", ""], rfl⟩

theorem cancel_alone :
    ∃ mints, exec (soloStep cap) (t, (Call.cancel order).begin) mints =
      some ((cancel t order).1, .answered (cancel t order).2) := by
  rcases ho : t.cancelFrom order .offering with ⟨t₁, _ | _⟩
  · rcases ha : t₁.cancelFrom order .assigned with ⟨t₂, _ | _⟩
    · exact ⟨["", "", ""], by simp [ho, ha, cancel]⟩
    · obtain ⟨mints, hm⟩ := freeing_alone cap t₂ order (t.deliveries order)
      refine ⟨"" :: "" :: "" :: mints, ?_⟩
      simpa [ho, ha, cancel] using hm
  · obtain ⟨mints, hm⟩ := freeing_alone cap t₁ order (t.deliveries order)
    refine ⟨"" :: "" :: mints, ?_⟩
    simpa [ho, cancel] using hm

end Dispatch
