/-
The inbox: how notifications come into it, and how they are read.

* `Row`, `notificationId` — a notification, under an identifier that its fact and its recipient
  determine;
* `World`, `Label`, `step` — the handler, the refund workflows, and the recipients who mark what
  they have read;
* `inbox` — a page, and how many are unread; `Reads` — pages that are read one after another;
* `notificationId_inj` — the identifiers of different facts, or recipients, differ.

A handler's transaction is one step, and so is an activity's; what crashes before its commit does
not happen, and what crashes after it is delivered again.  `uuid5` is a parameter, as are the
customers that the orders service names, and the code of the cursors.
-/
import SmartFoodOps.Lib.Dict
import SmartFoodOps.Lib.Machine
import SmartFoodOps.Lib.Paging
import SmartFoodOps.Lib.Separated
import SmartFoodOps.Notification.Mapping
import Mathlib.Data.Prod.Lex

open Machine Keyed

namespace Notification

/-! ### Tables -/

/-- The columns of `notifications` that are written once. -/
structure Fact where
  id : String
  recipient : Recipient
  orderId : String
  title : String
  body : String
  createdAt : ℕ
  deriving DecidableEq

structure Row extends Fact where
  readAt : Option ℕ
  deriving DecidableEq

abbrev Notifications := Table Row String fun row => row.id

structure Receipt where
  orderId : String
  userId : String
  restaurantName : String
  items : List String
  totals : Totals
  settledAt : ℕ
  deriving DecidableEq

/-- `RefundNotificationWorkflow`: its event, and the customer once he is looked up. -/
structure Refund where
  event : Event
  userId : Option String
  deriving DecidableEq

structure World where
  notifications : Notifications
  receipts : Table Receipt String Receipt.orderId
  refunds : Table Refund EventId fun refund => refund.event.id
  /-- The events whose notifications were written. -/
  handled : List Event

def World.init : World := ⟨.empty, .empty, .empty, []⟩

section

variable (uuid5 : String → String)

/-- `notification_id`. -/
def notificationId (eventId : EventId) (recipient : Recipient) : String :=
  "ntf_" ++ uuid5 (eventId.text ++ ":" ++ recipient.type.name ++ ":" ++ recipient.id)

def factOf (e : Event) (d : Draft) : Fact :=
  ⟨notificationId uuid5 e.id d.recipient, d.recipient, e.body.orderId, d.title, d.body,
    e.occurredAt⟩

/-- `insert_notification`, of each draft. -/
def mint (notifications : Notifications) (e : Event) (ds : List Draft) : Notifications :=
  ds.foldl (fun t d => t.insertOrIgnore ⟨factOf uuid5 e d, none⟩) notifications

/-! ### Steps -/

inductive Label
  /-- An event is delivered, and its handler comes to its end. -/
  | deliver (e : Event)
  /-- `fetch_recipients`. -/
  | fetch (id : EventId)
  /-- `write_notification`. -/
  | write (id : EventId)
  | markRead (recipient : Recipient) (id : String) (now : ℕ)
  | markAllRead (recipient : Recipient) (now : ℕ)

/-- `InboxHandler.handle`. -/
def World.handle (w : World) (e : Event) : World :=
  match e.body with
  | .payment .refundProcessed _ => { w with refunds := w.refunds.insertOrIgnore ⟨e, none⟩ }
  | .order type p =>
    { w with
      notifications := mint uuid5 w.notifications e (orderDrafts type p)
      receipts := if type = .orderSettled then w.receipts.insertOrIgnore
        ⟨p.orderId, p.userId, p.restaurantName, p.items, p.totals, e.occurredAt⟩ else w.receipts
      handled := e :: w.handled }
  | _ => w

/-- The drafts of a refund, once its customer is known. -/
def Refund.drafts (refund : Refund) : List Draft :=
  match refund.event.body, refund.userId with
  | .payment type p, some userId => paymentDrafts type p userId
  | _, _ => []

/-- `mark_read`, with the ownership in its condition. -/
def markRead (t : Notifications) (recipient : Recipient) (id : String) (now : ℕ) : Notifications :=
  t.updateWhere (fun row => row.id = id && row.recipient = recipient && row.readAt.isNone)
    (fun row => { row with readAt := some now }) fun _ => rfl

/-- `mark_all_read`. -/
def markAllRead (t : Notifications) (recipient : Recipient) (now : ℕ) : Notifications :=
  t.updateWhere (fun row => row.recipient = recipient && row.readAt.isNone)
    (fun row => { row with readAt := some now }) fun _ => rfl

variable (customerOf : String → Option String) (log : Table Event EventId Event.id)

def step (w : World) : Label → Option World
  | .deliver e => if e ∈ log then some (w.handle uuid5 e) else none
  | .fetch id =>
    (w.refunds.find id).bind fun refund => (customerOf refund.event.body.orderId).map fun userId =>
      { w with refunds := w.refunds.put { refund with userId := some userId } }
  | .write id =>
    (w.refunds.find id).bind fun refund => refund.userId.map fun _ =>
      { w with
        notifications := mint uuid5 w.notifications refund.event refund.drafts
        handled := refund.event :: w.handled }
  | .markRead recipient id now =>
    some { w with notifications := markRead w.notifications recipient id now }
  | .markAllRead recipient now =>
    some { w with notifications := markAllRead w.notifications recipient now }

/-! ### Reading -/

/-- `ORDER BY created_at, id`. -/
def Row.stamp (row : Row) : ℕ ×ₗ String := toLex (row.createdAt, row.id)

/-- `encode_cursor` and `decode_cursor`: a cursor that was made is read back. -/
structure Codec where
  encode : ℕ ×ₗ String → String
  decode : String → Option (ℕ ×ₗ String)
  decode_encode : ∀ c, decode (encode c) = some c

def World.of (w : World) (recipient : Recipient) : List Row :=
  w.notifications.rows.filter fun row => row.recipient = recipient

/-- `unread_count`. -/
def World.unreadCount (w : World) (recipient : Recipient) : ℕ :=
  w.notifications.rows.countP fun row => row.recipient = recipient && row.readAt.isNone

structure Poll where
  items : List Row
  nextCursor : Option String
  unread : ℕ

/-- `NotificationService.inbox`; a cursor that cannot be read is refused. -/
def World.inbox (w : World) (codec : Codec) (recipient : Recipient) (limit : ℕ)
    (cursor : Option String) : Option Poll :=
  let answer (before : Option (ℕ ×ₗ String)) : Poll :=
    let page := Paging.page Row.stamp limit before (w.of recipient)
    ⟨page.items, page.next.map codec.encode, w.unreadCount recipient⟩
  match cursor with
  | none => some (answer none)
  | some c => (codec.decode c).map fun before => answer (some before)

/-- A recipient reads page after page, while the inbox goes on. -/
inductive Reads (codec : Codec) (recipient : Recipient) (limit : ℕ) :
    World → Option String → List Row → World → Prop
  | last {w : World} {cursor : Option String} {poll : Poll}
      (hpoll : w.inbox codec recipient limit cursor = some poll) (h : poll.nextCursor = none) :
      Reads codec recipient limit w cursor poll.items w
  | more {w w' w'' : World} {cursor : Option String} {c : String} {poll : Poll} {is : List Label}
      {rest : List Row} (hpoll : w.inbox codec recipient limit cursor = some poll)
      (h : poll.nextCursor = some c)
      (hrun : Run (step uuid5 customerOf log) Always w is w')
      (hrest : Reads codec recipient limit w' (some c) rest w'') :
      Reads codec recipient limit w cursor (poll.items ++ rest) w''

/-! ### Identifiers -/

variable {uuid5 customerOf log}

theorem notificationId_inj (huuid : Function.Injective uuid5) {id id' : EventId} {r r' : Recipient}
    (h : notificationId uuid5 id r = notificationId uuid5 id' r') : id = id' ∧ r = r' := by
  have hname : ∀ t : RecipientType, ':' ∉ t.name.toList := by
    intro t
    cases t with
    | customer => decide
    | restaurant => decide
  have htext : id.text.toList ++ ':' :: (r.type.name.toList ++ ':' :: r.id.toList) =
      id'.text.toList ++ ':' :: (r'.type.name.toList ++ ':' :: r'.id.toList) := by
    have hlist : (notificationId uuid5 id r).toList = (notificationId uuid5 id' r').toList :=
      congrArg String.toList h
    unfold notificationId at hlist
    rw [String.toList_append, String.toList_append, List.append_cancel_left_eq] at hlist
    have huuid' := congrArg String.toList (huuid (String.toList_inj.mp hlist))
    simpa using huuid'
  obtain ⟨hid, hrest⟩ := Separated.eq_of_append_cons_eq id.plain id'.plain htext
  obtain ⟨htype, hrid⟩ := Separated.eq_of_append_cons_eq (hname _) (hname _) hrest
  refine ⟨?_, ?_⟩
  · obtain ⟨text, plain⟩ := id
    obtain ⟨text', plain'⟩ := id'
    obtain rfl : text = text' := String.toList_inj.mp hid
    rfl
  · obtain ⟨type, rid⟩ := r
    obtain ⟨type', rid'⟩ := r'
    obtain rfl : rid = rid' := String.toList_inj.mp hrid
    have hsame : type.name = type'.name := String.toList_inj.mp htype
    cases type <;> cases type' <;> first | rfl | exact absurd hsame (by decide)

end

end Notification
