/-
Who hears about which facts, and in what words.

* `Event` — a fact of the orders topic or of the payments topic, under an identifier of its own;
* `Draft`, `orderDrafts`, `paymentDrafts` — the notifications of a fact;
* `drafts` — of any event, given who the customer of an order is;
* `Draft.recipient_inj` — a fact has one notification for each recipient.
-/
import Mathlib.Data.String.Basic
import Mathlib.Data.List.Nodup

namespace Notification

/-! ### Events -/

/-- The identifier of an event; the producers draw them as uuids. -/
structure EventId where
  text : String
  plain : ':' ∉ text.toList
  deriving DecidableEq

inductive EventType
  | orderConfirmed
  | orderCancelled
  | orderDelivered
  | orderSettled
  | refundProcessed
  /-- Any other, on which the wire is silent. -/
  | other
  deriving DecidableEq

structure Totals where
  totalCents : ℤ
  currency : String
  deriving DecidableEq

/-- The payload of an order's event; an item is the text of its document. -/
structure OrderPayload where
  orderId : String
  userId : String
  restaurantId : String
  restaurantName : String
  brandId : Option String
  items : List String
  totals : Totals
  cancelReason : Option String
  deriving DecidableEq

/-- The payload of a payment's event, keyed by its order. -/
structure PaymentPayload where
  orderId : String
  amountCents : ℤ
  currency : String
  deriving DecidableEq

inductive Body
  | order (type : EventType) (payload : OrderPayload)
  | payment (type : EventType) (payload : PaymentPayload)
  /-- Another aggregate. -/
  | foreign
  deriving DecidableEq

structure Event where
  id : EventId
  occurredAt : ℕ
  body : Body
  deriving DecidableEq

/-! ### Drafts -/

inductive RecipientType
  | customer
  | restaurant
  deriving DecidableEq

def RecipientType.name : RecipientType → String
  | .customer => "customer"
  | .restaurant => "restaurant"

structure Recipient where
  type : RecipientType
  id : String
  deriving DecidableEq

structure Draft where
  recipient : Recipient
  title : String
  body : String
  deriving DecidableEq

/-- `money`. -/
def money (cents : ℤ) (currency : String) : String :=
  let pad := if cents % 100 < 10 then "0" else ""
  let amount := toString (cents / 100) ++ "." ++ pad ++ toString (cents % 100)
  if currency = "USD" then "$" ++ amount else amount ++ " " ++ currency

/-- `_CANCEL_BODIES`, and `_CANCEL_FALLBACK`. -/
def cancelBody (reason name : String) : String :=
  if reason = "customer_cancelled" then "Your order at " ++ name ++ " is cancelled, as you asked."
  else if reason = "restaurant_rejected" then
    name ++ " couldn't take your order. Your card was not charged."
  else if reason = "restaurant_timeout" then
    name ++ " didn't respond in time. Your card was not charged."
  else if reason = "payment_declined" then
    "Your card was declined, so the order never reached " ++ name ++ "."
  else if reason = "item_unavailable" then
    "Some items just sold out at " ++ name ++ ". Your card was not charged."
  else if reason = "at_capacity" then
    name ++ " can't take more orders right now. Your card was not charged."
  else if reason = "system_timeout" then
    "We couldn't reach " ++ name ++ " in time, so your order was cancelled. " ++
      "Your card was not charged."
  else if reason = "no_rider_available" then
    "We couldn't find a rider for your " ++ name ++ " order, so it was " ++
      "cancelled. Your card was not charged."
  else "Your order at " ++ name ++ " was cancelled."

def OrderPayload.customer (p : OrderPayload) : Recipient := ⟨.customer, p.userId⟩

/-- The mailbox of the kitchen is the brand's, if the order has a brand. -/
def OrderPayload.kitchen (p : OrderPayload) : Recipient :=
  ⟨.restaurant, match p.brandId with
    | some brandId => if brandId = "" then p.restaurantId else brandId
    | none => p.restaurantId⟩

/-- `order_drafts`. -/
def orderDrafts (type : EventType) (p : OrderPayload) : List Draft :=
  match type with
  | .orderConfirmed =>
    let count := p.items.length
    let items := toString count ++ if count = 1 then " item" else " items"
    let total := money p.totals.totalCents p.totals.currency
    [⟨p.kitchen, "New order to accept",
        items ++ ", " ++ total ++ " — accept or reject before the timer cancels it."⟩,
      ⟨p.customer, "Order confirmed",
        p.restaurantName ++ " has been notified and should accept shortly."⟩]
  | .orderCancelled =>
    let reason := p.cancelReason.getD ""
    ⟨p.customer, "Order cancelled", cancelBody reason p.restaurantName⟩ ::
      if reason = "customer_cancelled" then
        [⟨p.kitchen, "Order cancelled by the customer",
          "Stop preparing it — the slot and stock are released."⟩]
      else if reason = "no_rider_available" then
        [⟨p.kitchen, "No rider available",
          "We couldn't find a courier in time — the order was cancelled " ++
            "and the slot released."⟩]
      else []
  | .orderDelivered =>
    [⟨p.customer, "Order delivered",
      "Your order from " ++ p.restaurantName ++ " has arrived — enjoy!"⟩]
  | _ => []

/-- `payment_drafts`. -/
def paymentDrafts (type : EventType) (p : PaymentPayload) (userId : String) : List Draft :=
  match type with
  | .refundProcessed =>
    [⟨⟨.customer, userId⟩, "Refund on its way",
      money p.amountCents p.currency ++ " is heading back to your card."⟩]
  | _ => []

/-- The notifications of an event; `customerOf` is whom the orders service names as the customer
of an order, if it has the order. -/
def drafts (customerOf : String → Option String) (e : Event) : List Draft :=
  match e.body with
  | .order type p => orderDrafts type p
  | .payment type p =>
    match customerOf p.orderId with
    | some userId => paymentDrafts type p userId
    | none => []
  | .foreign => []

def Body.orderId : Body → String
  | .order _ p => p.orderId
  | .payment _ p => p.orderId
  | .foreign => ""

variable {customerOf : String → Option String} {e : Event} {d d' : Draft}

/-- **One notification for each recipient**: the kitchen's is told from the customer's by its
type. -/
theorem Draft.recipient_inj (hd : d ∈ drafts customerOf e) (hd' : d' ∈ drafts customerOf e)
    (h : d.recipient = d'.recipient) : d = d' := by
  obtain ⟨id, occurredAt, body⟩ := e
  have hsingle : ∀ {a : Draft}, d ∈ [a] → d' ∈ [a] → d = d' := by
    intro a ha ha'
    rw [List.mem_singleton.mp ha, List.mem_singleton.mp ha']
  have hpair : ∀ {a b : Draft}, d ∈ [a, b] → d' ∈ [a, b] → a.recipient.type ≠ b.recipient.type →
      d = d' := by
    intro a b ha ha' hab
    rcases List.mem_pair.mp ha with rfl | rfl <;> rcases List.mem_pair.mp ha' with rfl | rfl
    · rfl
    · exact absurd (congrArg Recipient.type h) hab
    · exact absurd (congrArg Recipient.type h).symm hab
    · rfl
  rcases body with ⟨type, p⟩ | ⟨type, p⟩ | _
  · cases type with
    | orderConfirmed => exact hpair hd hd' nofun
    | orderCancelled =>
      simp only [drafts, orderDrafts] at hd hd'
      split at hd
      · next hr =>
        rw [if_pos hr] at hd'
        exact hpair hd hd' nofun
      · next hr =>
        rw [if_neg hr] at hd'
        split at hd
        · next hr' =>
          rw [if_pos hr'] at hd'
          exact hpair hd hd' nofun
        · next hr' =>
          rw [if_neg hr'] at hd'
          exact hsingle hd hd'
    | orderDelivered => exact hsingle hd hd'
    | orderSettled | refundProcessed | other => cases hd
  · simp only [drafts] at hd hd'
    split at hd
    · next userId huser =>
      rw [huser] at hd'
      cases type with
      | refundProcessed => exact hsingle hd hd'
      | orderConfirmed | orderCancelled | orderDelivered | orderSettled | other => cases hd
    · cases hd
  · cases hd

end Notification
