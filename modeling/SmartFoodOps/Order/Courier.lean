/-
Courier events, from the dispatch service to the delivery workflow.

Four pieces of two services meet here: `OrderCourierClient.send` builds the
request, `CourierIn` and the route check it, `signal_courier` turns it into a
signal of `dlv::{order_id}`, and the handlers of `DeliveryWorkflow` record what
its waits look at.

* `send_transmits` — what a request that gets through does, for any event;
* `courier_contract_iff` — the events that reach the workflow as it expects them
  are exactly the pickups and the deliveries of riders whose id fits the schema:
  the body never carries the `offer_id` that the route demands of `accepted`.
-/
import SmartFoodOps.Dispatch.Service

open Dispatch

namespace Order

/-! ### The signals of the delivery workflow -/

/-- What `DeliveryWorkflow` has been told. -/
structure CourierSignals where
  foodReady : Bool := false
  accepted : OfferId → Option RiderId := fun _ => none
  pickedUp : Finset RiderId := ∅
  delivered : Finset RiderId := ∅

inductive CourierSignal
  | foodReady
  | offerAccepted (offer : OfferId) (rider : RiderId)
  | courierPickedUp (rider : RiderId)
  | courierDelivered (rider : RiderId)
  deriving DecidableEq, Repr

/-- The signal handlers. -/
def CourierSignals.raise (s : CourierSignals) : CourierSignal → CourierSignals
  | .foodReady => { s with foodReady := true }
  | .offerAccepted offer rider =>
    { s with accepted := Function.update s.accepted offer (some rider) }
  | .courierPickedUp rider => { s with pickedUp := insert rider s.pickedUp }
  | .courierDelivered rider => { s with delivered := insert rider s.delivered }

/-- Duplicates collapse. -/
@[simp] theorem CourierSignals.raise_raise (s : CourierSignals) (i : CourierSignal) :
    (s.raise i).raise i = s.raise i := by
  cases i <;> simp [CourierSignals.raise]

/-! ### The saga client -/

/-- Temporal as the signals see it: reachable or not, and its running workflows. -/
structure Saga where
  up : Bool
  running : String → Option CourierSignals

/-- What a signal comes back with; the two failures are SagaGone and SagaUnavailable. -/
inductive SagaReply
  | ok
  | gone
  | unavailable
  deriving DecidableEq, Repr

/-- `_signal`. -/
def Saga.signal (w : Saga) (workflowId : String) (i : CourierSignal) : Saga × SagaReply :=
  if w.up then
    match w.running workflowId with
    | some s => ({ w with running := Function.update w.running workflowId (some (s.raise i)) }, .ok)
    | none => (w, .gone)
  else (w, .unavailable)

def deliveryId (order : OrderId) : String := "dlv::" ++ order

/-- The delivery workflow of an order has handled a signal. -/
def Saga.told (w : Saga) (order : OrderId) (i : CourierSignal) : Saga :=
  { w with running := Function.update w.running (deliveryId order)
             ((w.running (deliveryId order)).map fun s => s.raise i) }

/-- The order's delivery workflow can be signalled. -/
def Saga.delivering (w : Saga) (order : OrderId) : Prop :=
  w.up = true ∧ (w.running (deliveryId order)).isSome

/-- `signal_courier`. -/
def Saga.signalCourier (w : Saga) (order : OrderId) (event : CourierEvent) (rider : RiderId)
    (offer : Option OfferId) : Saga × SagaReply :=
  match event with
  | .accepted => w.signal (deliveryId order) (.offerAccepted (offer.getD "") rider)
  | .pickedUp => w.signal (deliveryId order) (.courierPickedUp rider)
  | .delivered => w.signal (deliveryId order) (.courierDelivered rider)

/-! ### The route -/

/-- A JSON value, as far as a text field tells values apart. -/
inductive Json
  | null
  | str (s : String)
  | other
  deriving DecidableEq, Repr

/-- The members of a JSON object. -/
abbrev Body := List (String × Json)

/-- One entry of the 422's `details`. -/
structure FieldError where
  field : String
  issue : String
  deriving DecidableEq, Repr

structure CourierIn where
  event : CourierEvent
  riderId : RiderId
  offerId : Option OfferId
  deriving DecidableEq, Repr

/-- A text of bounded length. -/
def parseText (field : String) (maxLength : ℕ) : Json → Except FieldError String
  | .str s =>
    if s.length ≤ maxLength then .ok s
    else .error ⟨field, s!"String should have at most {maxLength} characters"⟩
  | _ => .error ⟨field, "Input should be a valid string"⟩

/-- A field without a default. -/
def required {α : Type*} (body : Body) (field : String) (parse : Json → Except FieldError α) :
    Except FieldError α :=
  match body.lookup field with
  | some v => parse v
  | none => .error ⟨field, "Field required"⟩

/-- A field that may be null or absent. -/
def optional {α : Type*} (body : Body) (field : String) (parse : Json → Except FieldError α) :
    Except FieldError (Option α) :=
  match body.lookup field with
  | none => .ok none
  | some .null => .ok none
  | some v => (parse v).map some

def CourierEvent.text : CourierEvent → String
  | .accepted => "accepted"
  | .pickedUp => "picked_up"
  | .delivered => "delivered"

/-- `Literal["accepted", "picked_up", "delivered"]`. -/
def parseEvent : Json → Except FieldError CourierEvent
  | .str "accepted" => .ok .accepted
  | .str "picked_up" => .ok .pickedUp
  | .str "delivered" => .ok .delivered
  | _ => .error ⟨"event", "Input should be 'accepted', 'picked_up' or 'delivered'"⟩

def errorOf {α : Type*} : Except FieldError α → List FieldError
  | .ok _ => []
  | .error e => [e]

/-- Unknown members are refused: `extra="forbid"`. -/
def extras (body : Body) (fields : List String) : List FieldError :=
  (body.filter fun m => !fields.contains m.1).map fun m =>
    ⟨m.1, "Extra inputs are not permitted"⟩

/-- The validation of the request model; the errors come field by field. -/
def CourierIn.validate (body : Body) : Except (List FieldError) CourierIn :=
  let event := required body "event" parseEvent
  let rider := required body "rider_id" (parseText "rider_id" 64)
  let offer := optional body "offer_id" (parseText "offer_id" 64)
  match event, rider, offer, extras body ["event", "rider_id", "offer_id"] with
  | .ok event, .ok rider, .ok offer, [] => .ok ⟨event, rider, offer⟩
  | event, rider, offer, extra =>
    .error (errorOf event ++ errorOf rider ++ errorOf offer ++ extra)

inductive ErrorCode
  | validationFailed
  | notFound
  | dependencyUnavailable
  deriving DecidableEq, Repr

/-- A response: its status, and the envelope of an error. -/
structure Response where
  status : ℕ
  error : Option (ErrorCode × String × List FieldError) := none
  deriving DecidableEq, Repr

/-- `courier_event`, behind the validation of its body. -/
def courierEvent (w : Saga) (order : OrderId) (body : Body) : Saga × Response :=
  match CourierIn.validate body with
  | .error details =>
    (w, ⟨422, some (.validationFailed, "request validation failed", details)⟩)
  | .ok body =>
    if body.event = .accepted ∧ body.offerId = none then
      (w, ⟨422, some (.validationFailed, "accepted requires offer_id", [])⟩)
    else
      match w.signalCourier order body.event body.riderId body.offerId with
      | (w, .ok) => (w, ⟨202, none⟩)
      | (w, .gone) => (w, ⟨404, some (.notFound, "no live delivery for this order", [])⟩)
      | (w, .unavailable) =>
        (w, ⟨503, some (.dependencyUnavailable, "saga unavailable", [])⟩)

/-! ### The client -/

/-- What becomes of one HTTP attempt: it arrives and is answered, it never arrives,
or it arrives and its answer is lost. -/
inductive Fate
  | answered
  | lost
  | answerLost
  deriving DecidableEq, Repr

/-- The body `send` posts. -/
def courierBody (event : CourierEvent) (rider : RiderId) : Body :=
  [("event", .str (CourierEvent.text event)), ("rider_id", .str rider)]

/-- The attempts of `send`, one for each fate; an `httpx.HTTPError` and a 5xx are
tried again. -/
def send : List Fate → Courier Saga
  | [], w, _, _, _ => (w, .unavailable)
  | .lost :: fates, w, order, event, rider => send fates w order event rider
  | .answerLost :: fates, w, order, event, rider =>
    send fates (courierEvent w order (courierBody event rider)).1 order event rider
  | .answered :: fates, w, order, event, rider =>
    match courierEvent w order (courierBody event rider) with
    | (w, response) =>
      if response.status < 300 then (w, .ok)
      else if response.status = 404 then (w, .gone)
      else if response.status < 500 then (w, .unavailable)
      else send fates w order event rider

/-! ### What the route makes of the client's body -/

section

variable {w : Saga} {order : OrderId} {event : CourierEvent} {rider : RiderId}
  {fates : List Fate}

@[simp] theorem parseEvent_text (event : CourierEvent) :
    parseEvent (.str (CourierEvent.text event)) = .ok event := by
  cases event <;> rfl

theorem validate_courierBody (h : rider.length ≤ 64) :
    CourierIn.validate (courierBody event rider) = .ok ⟨event, rider, none⟩ := by
  simp [CourierIn.validate, courierBody, required, optional, parseText, List.lookup_cons, h, extras]

theorem validate_courierBody_long (h : 64 < rider.length) :
    CourierIn.validate (courierBody event rider) =
      .error [⟨"rider_id", "String should have at most 64 characters"⟩] := by
  have hl : ¬ rider.length ≤ 64 := by omega
  simp [CourierIn.validate, courierBody, required, optional, parseText, List.lookup_cons, hl, extras,
    errorOf]
  rfl

/-- The signal that carries a pickup or a delivery. -/
def signalOf (event : CourierEvent) (offer : OfferId) (rider : RiderId) : CourierSignal :=
  match event with
  | .accepted => .offerAccepted offer rider
  | .pickedUp => .courierPickedUp rider
  | .delivered => .courierDelivered rider

/-- The request gets past the schema and the route's own check. -/
def Passes (event : CourierEvent) (rider : RiderId) : Prop :=
  event ≠ .accepted ∧ rider.length ≤ 64

instance (event : CourierEvent) (rider : RiderId) : Decidable (Passes event rider) :=
  inferInstanceAs (Decidable (_ ∧ _))

/-- A request that does not pass is a 422, and nothing is signalled. -/
theorem courierEvent_refused (h : ¬ Passes event rider) :
    (courierEvent w order (courierBody event rider)).1 = w ∧
      (courierEvent w order (courierBody event rider)).2.status = 422 := by
  by_cases hl : rider.length ≤ 64
  · have he : event = .accepted := by
      by_contra he
      exact h ⟨he, hl⟩
    subst he
    simp [courierEvent, validate_courierBody hl]
  · simp [courierEvent, validate_courierBody_long (by omega : 64 < rider.length)]

/-- A signal of a running delivery workflow is handled by it. -/
theorem Saga.signal_deliveryId (h : w.delivering order) (i : CourierSignal) :
    w.signal (deliveryId order) i = (w.told order i, .ok) := by
  obtain ⟨hup, hs⟩ := h
  obtain ⟨s, hs⟩ := Option.isSome_iff_exists.mp hs
  simp [Saga.signal, Saga.told, hup, hs]

/-- A request that passes raises the signal of its event on a running workflow. -/
theorem courierEvent_passed (h : Passes event rider) (hw : w.delivering order)
    (offer : OfferId) : courierEvent w order (courierBody event rider) =
      (w.told order (signalOf event offer rider), ⟨202, none⟩) := by
  obtain ⟨he, hl⟩ := h
  simp only [courierEvent, validate_courierBody hl]
  cases event with
  | accepted => exact absurd rfl he
  | pickedUp => simp [Saga.signalCourier, Saga.signal_deliveryId hw, signalOf]
  | delivered => simp [Saga.signalCourier, Saga.signal_deliveryId hw, signalOf]

theorem Saga.delivering.told (h : w.delivering order) (i : CourierSignal) :
    (w.told order i).delivering order := by
  refine ⟨h.1, ?_⟩
  simpa [Saga.told] using h.2

/-- Telling a workflow twice is telling it once. -/
@[simp] theorem Saga.told_told (w : Saga) (order : OrderId) (i : CourierSignal) :
    (w.told order i).told order i = w.told order i := by
  simp [Saga.told, Function.comp_def]

/-! ### What the client makes of the route -/

/-- The order service is reachable: one of the attempts is answered. -/
def Reachable (fates : List Fate) : Prop := .answered ∈ fates

/-- An event that does not pass is raised as OrderUnavailable, however often it is
tried. -/
theorem send_refused (h : ¬ Passes event rider) :
    send fates w order event rider = (w, .unavailable) := by
  obtain ⟨hw, hstatus⟩ := @courierEvent_refused w order event rider h
  induction fates with
  | nil => rfl
  | cons fate fates ih =>
    cases fate with
    | answered => simp [send, hw, hstatus]
    | lost => simpa [send] using ih
    | answerLost => simpa [send, hw] using ih

/-- **What gets through.**  An event that passes is signalled on a running workflow
once in effect, however many of its attempts were lost on the way. -/
theorem send_transmits (h : Passes event rider) (hw : w.delivering order)
    (hr : Reachable fates) (offer : OfferId) :
    send fates w order event rider = (w.told order (signalOf event offer rider), .ok) := by
  induction fates generalizing w with
  | nil => cases hr
  | cons fate fates ih =>
    have hpost := courierEvent_passed h hw offer
    cases fate with
    | answered => simp [send, hpost]
    | lost =>
      have hr : Reachable fates := by simpa [Reachable] using hr
      exact ih hw hr
    | answerLost =>
      have hr : Reachable fates := by simpa [Reachable] using hr
      simp only [send, hpost]
      rw [ih (hw.told _) hr, Saga.told_told]

end

/-! ### The rider's taps -/

/-- A rider's tap, as dispatch receives it. -/
inductive Tap
  | accept (rider : RiderId) (offer : OfferId) (order : OrderId)
  | pickUp (rider : RiderId) (order : OrderId)
  | deliver (rider : RiderId) (order : OrderId)
  deriving DecidableEq, Repr

namespace Tap

def rider : Tap → RiderId
  | accept rider _ _ | pickUp rider _ | deliver rider _ => rider

def order : Tap → OrderId
  | accept _ _ order | pickUp _ order | deliver _ order => order

def event : Tap → CourierEvent
  | accept .. => .accepted
  | pickUp .. => .pickedUp
  | deliver .. => .delivered

/-- The signal the delivery workflow waits on for the tap. -/
def signal : Tap → CourierSignal
  | accept rider offer _ => .offerAccepted offer rider
  | pickUp rider _ => .courierPickedUp rider
  | deliver rider _ => .courierDelivered rider

/-- The answer of a tap that worked. -/
def success : Tap → Outcome
  | accept .. => .assigned
  | pickUp .. | deliver .. => .ok

/-- Dispatch on a tap, with the order service behind its relay. -/
def perform (fates : List Fate) (t : Tables) (w : Saga) : Tap → Tables × Saga × Option Outcome
  | accept rider offer order => acceptOffer (send fates) t w rider offer order
  | pickUp rider order => Dispatch.pickedUp (send fates) t w rider order
  | deliver rider order => Dispatch.delivered (send fates) t w rider order

/-- The tap's store transition applies. -/
def Applies (t : Tables) : Tap → Prop
  | accept rider offer order => (t.accept rider offer order).2 = true
  | pickUp rider order => (t.markPickedUp order rider).2 = true
  | deliver rider order => (t.markDelivered order rider).2 = true

/-- A tap whose transition applies relays its event and answers for the relay. -/
theorem perform_of_applies {fates : List Fate} {w : Saga} {t : Tables} {tap : Tap} (h : tap.Applies t) :
    (tap.perform fates t w).2 =
      relay (send fates) w tap.order tap.event tap.rider tap.success := by
  cases tap with
  | accept rider offer order =>
    rcases ht : t.accept rider offer order with ⟨t', b⟩
    simp only [Applies, ht] at h
    simp [perform, acceptOffer, ht, h, Tap.order, Tap.event, Tap.rider, success]
  | pickUp rider order =>
    rcases ht : t.markPickedUp order rider with ⟨t', b⟩
    simp only [Applies, ht] at h
    simp [perform, Dispatch.pickedUp, ht, h, Tap.order, Tap.event, Tap.rider, success]
  | deliver rider order =>
    rcases ht : t.markDelivered order rider with ⟨t', b⟩
    simp only [Applies, ht] at h
    simp [perform, Dispatch.delivered, ht, h, Tap.order, Tap.event, Tap.rider, success]

/-- The contract between the two services for one tap: the request is valid, the tap
is answered as one that worked, and the delivery workflow has been told. -/
structure Honoured (fates : List Fate) (t : Tables) (w : Saga) (tap : Tap) : Prop where
  valid : ∃ body, CourierIn.validate (courierBody tap.event tap.rider) = .ok body ∧
    ¬ (body.event = .accepted ∧ body.offerId = none)
  answer : (tap.perform fates t w).2.2 = some tap.success
  told : (tap.perform fates t w).2.1 = w.told tap.order tap.signal

end Tap

/-- **Which courier events arrive.**  With the order service reachable and the delivery
workflow running, a tap whose store transition applied reaches the workflow as the
signal it waits on iff it is not an accept and the rider's id fits the schema. -/
theorem courier_contract_iff (fates : List Fate) (t : Tables) (w : Saga) (tap : Tap)
    (ht : tap.Applies t) (hw : w.delivering tap.order) (hr : Reachable fates) :
    tap.Honoured fates t w ↔ tap.event ≠ .accepted ∧ tap.rider.length ≤ 64 := by
  have hrun : (tap.perform fates t w).2 =
      relay (send fates) w tap.order tap.event tap.rider tap.success :=
    Tap.perform_of_applies ht
  constructor
  · intro h
    by_contra hno
    have hsend : send fates w tap.order tap.event tap.rider = (w, .unavailable) :=
      send_refused hno
    have := h.answer
    rw [hrun, relay, hsend] at this
    cases this
  · intro h
    have hsend : ∀ offer, send fates w tap.order tap.event tap.rider =
        (w.told tap.order (signalOf tap.event offer tap.rider), .ok) :=
      send_transmits h hw hr
    refine ⟨⟨_, validate_courierBody h.2, fun hb => h.1 hb.1⟩, ?_, ?_⟩
    · rw [hrun, relay, hsend ""]
    · rw [hrun, relay, hsend ""]
      cases tap with
      | accept => exact absurd rfl h.1
      | pickUp => rfl
      | deliver => rfl

/-- A courier with the food taps delivered, and the second attempt gets through. -/
theorem courier_contract_iff_delivered :
    Tap.Honoured [.lost, .answered]
      (Tables.empty.setDelivery "o1" ⟨.pickedUp, "r1", "off1"⟩)
      ⟨true, fun id => if id = "dlv::o1" then some {} else none⟩ (.deliver "r1" "o1") :=
  (courier_contract_iff [.lost, .answered]
    (Tables.empty.setDelivery "o1" ⟨.pickedUp, "r1", "off1"⟩)
    ⟨true, fun id => if id = "dlv::o1" then some {} else none⟩ (.deliver "r1" "o1")
    (by decide : _ = true) ⟨rfl, rfl⟩ (by simp [Reachable])).mpr ⟨by decide, by decide⟩

/-- Rider `r1` accepts the offer that locks them: the lock converts, the route answers
422, and the rider is told the order service is unavailable. -/
theorem accepted_not_honoured :
    ¬ ∀ (fates : List Fate) (t : Tables) (w : Saga) (tap : Tap), tap.Applies t →
      w.delivering tap.order → Reachable fates → tap.Honoured fates t w := by
  intro h
  have := (h [.answered, .answered, .answered]
    ((Tables.empty.setRider "r1" ⟨.online, some ⟨"off1", "o1"⟩, ∅, 1, 0⟩).setDelivery "o1"
      ⟨.offering, "r1", "off1"⟩)
    ⟨true, fun id => if id = "dlv::o1" then some {} else none⟩ (.accept "r1" "off1" "o1")
    (by decide : _ = true) ⟨rfl, rfl⟩ (by simp [Reachable])).answer
  exact absurd this (by decide)

end Order
