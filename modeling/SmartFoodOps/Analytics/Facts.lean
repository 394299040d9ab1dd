/-
The facts of analytics and the projectors that fold events into them.

* `Column`, `OrderFact` — `order_facts`, one row per order; `eventValues` says which columns an
  event writes;
* `foldFacts`, `upsertFacts` — a batch in one row per order, and one statement per set of columns;
* `itemValues`, `viewValues`, `assistantValues` — the rows of the other three tables;
* `FactsProjector`, `ItemFactsProjector`, `ViewsProjector`, `AssistantFactsProjector` — what each
  does with a batch.

An event on a topic comes with a payload that can be read; what is optional in it, and what the
readers put in its place, is as they read it.
-/
import SmartFoodOps.Lib.Dict
import SmartFoodOps.Lib.Patch
import SmartFoodOps.Order.Emission
import Mathlib.Data.Fintype.Defs
import Mathlib.Algebra.Ring.Int.Defs
import Mathlib.Data.Rat.Defs

open Keyed
open Order (EventType OrderStatus CancelReason)
open Order.Emission (Line Totals Payload)
open Dispatch (OrderId)

namespace Analytics

/-! ### Events -/

/-- What `MenuViewed` carries. -/
structure ViewPayload where
  restaurantId : String
  brandId : Option String
  userId : Option String
  viewedAt : ℕ
  deriving DecidableEq

/-- What an interaction with the assistant carries. -/
structure InteractionPayload where
  messageId : Option String
  conversationId : Option String
  userId : Option String
  city : Option String
  outcome : Option String
  refusalReason : Option String
  itemIds : Option (List String)
  restaurantIds : Option (List String)
  candidates : Option ℤ
  ungrounded : Option ℤ
  durationMs : Option ℚ
  deriving DecidableEq

inductive Event
  | order (e : Order.Emission.Event)
  | menuViewed (eventId : String) (payload : ViewPayload)
  /-- `occurredAt` is `none` when it is not a time. -/
  | interaction (payload : InteractionPayload) (occurredAt : Option ℕ)
  | other (eventType : String)
  deriving DecidableEq

/-! ### `order_facts` -/

inductive Column
  | restaurantId
  | brandId
  | userId
  | status
  | totalCents
  | placedAt
  | confirmedAt
  | deliveredAt
  | riderId
  | cancelledAt
  | settledAt
  | cancelReason
  | updatedAt
  deriving DecidableEq

instance : Fintype Column where
  elems := {.restaurantId, .brandId, .userId, .status, .totalCents, .placedAt, .confirmedAt,
    .deliveredAt, .riderId, .cancelledAt, .settledAt, .cancelReason, .updatedAt}
  complete c := by cases c <;> decide

/-- The values of a column; nullable ones are options. -/
def Column.Value : Column → Type
  | restaurantId | userId => String
  | brandId | riderId => Option String
  | status => OrderStatus
  | totalCents => ℤ
  | placedAt | confirmedAt | deliveredAt | cancelledAt | settledAt => Option ℕ
  | cancelReason => Option CancelReason
  | updatedAt => ℕ

instance (c : Column) : DecidableEq c.Value :=
  match c with
  | .restaurantId | .userId => inferInstanceAs (DecidableEq String)
  | .brandId | .riderId => inferInstanceAs (DecidableEq (Option String))
  | .status => inferInstanceAs (DecidableEq OrderStatus)
  | .totalCents => inferInstanceAs (DecidableEq ℤ)
  | .placedAt | .confirmedAt | .deliveredAt | .cancelledAt | .settledAt =>
    inferInstanceAs (DecidableEq (Option ℕ))
  | .cancelReason => inferInstanceAs (DecidableEq (Option CancelReason))
  | .updatedAt => inferInstanceAs (DecidableEq ℕ)

abbrev Cells := (c : Column) → c.Value

abbrev FactPatch := Patch Column.Value

structure OrderFact where
  orderId : OrderId
  cells : Cells

namespace OrderFact

def restaurantId (f : OrderFact) : String := f.cells .restaurantId
def brandId (f : OrderFact) : Option String := f.cells .brandId
def userId (f : OrderFact) : String := f.cells .userId
def status (f : OrderFact) : OrderStatus := f.cells .status
def totalCents (f : OrderFact) : ℤ := f.cells .totalCents
def placedAt (f : OrderFact) : Option ℕ := f.cells .placedAt
def confirmedAt (f : OrderFact) : Option ℕ := f.cells .confirmedAt
def deliveredAt (f : OrderFact) : Option ℕ := f.cells .deliveredAt
def cancelledAt (f : OrderFact) : Option ℕ := f.cells .cancelledAt
def settledAt (f : OrderFact) : Option ℕ := f.cells .settledAt
def cancelReason (f : OrderFact) : Option CancelReason := f.cells .cancelReason

end OrderFact

/-- What an INSERT puts into the columns that it does not name. -/
def blank : Cells
  | .restaurantId | .userId => ""
  | .brandId | .riderId => (none : Option String)
  | .status => OrderStatus.placed
  | .totalCents => (0 : ℤ)
  | .placedAt | .confirmedAt | .deliveredAt | .cancelledAt | .settledAt => (none : Option ℕ)
  | .cancelReason => (none : Option CancelReason)
  | .updatedAt => (0 : ℕ)

abbrev OrderFacts := Table OrderFact OrderId OrderFact.orderId

/-- `_EVENT_COLUMNS`. -/
def eventColumn : EventType → Option Column
  | .orderPlaced => some .placedAt
  | .orderConfirmed => some .confirmedAt
  | .orderDelivered => some .deliveredAt
  | .orderCancelled => some .cancelledAt
  | .orderSettled => some .settledAt
  | _ => none

/-- `_total_cents`. -/
def totalCents (t : Totals) : ℤ :=
  match t.totals with
  | some total => total.getD 0
  | none => t.totalCents.getD 0

/-- Only a known value updates the column. -/
def known (v : Option String) : Option (Option String) := (v.filter fun v => v ≠ "").map some

/-- The milestone column of the event. -/
def milestone (type : EventType) (c : Column) (occurred : ℕ) : Option (Option ℕ) :=
  if eventColumn type = some c then some (some occurred) else none

/-- When the event says that it has happened. -/
def occurred (p : Payload) : ℕ := p.occurredAt.getD p.placedAt

/-- The columns that an event owns. -/
def eventPatch (type : EventType) (p : Payload) : FactPatch
  | .restaurantId => some p.restaurantId
  | .userId => some (p.userId.getD "")
  | .status => some p.status
  | .totalCents => some (totalCents p.totals)
  | .updatedAt => some (occurred p)
  | .placedAt => milestone type .placedAt (occurred p)
  | .confirmedAt => milestone type .confirmedAt (occurred p)
  | .deliveredAt => milestone type .deliveredAt (occurred p)
  | .cancelledAt => milestone type .cancelledAt (occurred p)
  | .settledAt => milestone type .settledAt (occurred p)
  | .cancelReason => if type = .orderCancelled then some p.cancelReason else none
  | .riderId => known p.riderId
  | .brandId => known p.brandId

/-- `event_values`, with the order apart. -/
def eventValues (type : EventType) (p : Payload) : Option (OrderId × FactPatch) :=
  match eventColumn type with
  | none => none
  | some _ => some (p.orderId, eventPatch type p)

/-- The row that an event has for the facts projector. -/
def factRow : Event → Option (OrderId × FactPatch)
  | .order e => eventValues e.type e.payload
  | _ => none

/-- `fold_facts`. -/
def foldFacts (events : List Event) : Dict OrderId FactPatch :=
  Dict.gather Prod.fst (fun row merged => row.2.above (merged.getD .empty)) (events.filterMap factRow)

/-- The set of columns of a row. -/
def signature (p : FactPatch) : Finset Column := {c | (p c).isSome}

/-- One statement for each signature. -/
def factStatements (rows : List (OrderId × FactPatch)) : List (List (OrderId × FactPatch)) :=
  (Dict.groupBy (fun row => signature row.2) rows).values

/-- One row of a statement. -/
def upsertFact (t : OrderFacts) (row : OrderId × FactPatch) : OrderFacts :=
  t.insertOr ⟨row.1, row.2.onto blank⟩ fun old => ⟨row.1, row.2.onto old.cells⟩

/-- `upsert_facts`. -/
def upsertFacts (t : OrderFacts) (rows : List (OrderId × FactPatch)) : OrderFacts :=
  (factStatements rows).foldl (fun t statement => statement.foldl upsertFact t) t

def FactsProjector.handleBatch (t : OrderFacts) (events : List Event) : OrderFacts :=
  upsertFacts t (foldFacts events).entries

def FactsProjector.handle (t : OrderFacts) (event : Event) : OrderFacts := handleBatch t [event]

/-! ### `order_item_facts` -/

structure ItemFact where
  orderId : OrderId
  menuItemId : String
  restaurantId : String
  brandId : Option String
  userId : String
  nameSnapshot : String
  qty : ℤ
  lineTotalCents : ℤ
  placedAt : ℕ
  deriving DecidableEq

def ItemFact.key (f : ItemFact) : OrderId × String := (f.orderId, f.menuItemId)

abbrev ItemFacts := Table ItemFact (OrderId × String) ItemFact.key

/-- The menu item of a line that has one. -/
def lineItem (line : Line) : Option (String × Line) :=
  (line.menuItemId.filter fun id => id ≠ "").map fun id => (id, line)

def itemFact (p : Payload) (id : String) (line : Line) : ItemFact where
  orderId := p.orderId
  menuItemId := id
  restaurantId := p.restaurantId
  brandId := p.brandId
  userId := p.userId.getD ""
  nameSnapshot := line.name.getD ""
  qty := line.qty.getD 0
  lineTotalCents := line.lineTotalCents.getD 0
  placedAt := p.placedAt

/-- A further line with the item. -/
def ItemFact.add (row : ItemFact) (line : Line) : ItemFact :=
  { row with qty := row.qty + line.qty.getD 0,
             lineTotalCents := row.lineTotalCents + line.lineTotalCents.getD 0 }

/-- `item_values`. -/
def itemValues (p : Payload) : List ItemFact :=
  (Dict.gather Prod.fst
    (fun line row => row.elim (itemFact p line.1 line.2) fun row => row.add line.2)
    (p.items.filterMap lineItem)).values

def itemRows : Event → List ItemFact
  | .order e => if e.type = .orderPlaced then itemValues e.payload else []
  | _ => []

/-- `insert_item_facts`. -/
def insertItemFacts (t : ItemFacts) (rows : List ItemFact) : ItemFacts :=
  rows.foldl Table.insertOrIgnore t

def ItemFactsProjector.handleBatch (t : ItemFacts) (events : List Event) : ItemFacts :=
  insertItemFacts t (events.flatMap itemRows)

def ItemFactsProjector.handle (t : ItemFacts) (event : Event) : ItemFacts := handleBatch t [event]

/-! ### `menu_views` -/

structure MenuView where
  viewId : String
  restaurantId : String
  brandId : Option String
  userId : Option String
  viewedAt : ℕ
  deriving DecidableEq

abbrev MenuViews := Table MenuView String MenuView.viewId

def viewValues (p : ViewPayload) (eventId : String) : MenuView where
  viewId := eventId
  restaurantId := p.restaurantId
  brandId := p.brandId
  userId := p.userId
  viewedAt := p.viewedAt

def viewRow : Event → Option MenuView
  | .menuViewed eventId payload => some (viewValues payload eventId)
  | _ => none

/-- `insert_views`. -/
def insertViews (t : MenuViews) (rows : List MenuView) : MenuViews :=
  rows.foldl Table.insertOrIgnore t

def ViewsProjector.handleBatch (t : MenuViews) (events : List Event) : MenuViews :=
  insertViews t (events.filterMap viewRow)

def ViewsProjector.handle (t : MenuViews) (event : Event) : MenuViews := handleBatch t [event]

/-! ### `assistant_facts` -/

structure AssistantFact where
  messageId : String
  conversationId : String
  userId : String
  city : String
  outcome : String
  refusalReason : String
  itemIds : List String
  restaurantIds : List String
  candidates : ℤ
  ungrounded : ℤ
  durationMs : ℚ
  occurredAt : ℕ
  deriving DecidableEq

abbrev AssistantFacts := Table AssistantFact String AssistantFact.messageId

/-- `assistant_values`. -/
def assistantValues (p : InteractionPayload) (occurredAt : Option ℕ) : Option AssistantFact := do
  let messageId ← p.messageId.filter fun id => id ≠ ""
  let occurred ← occurredAt
  return { messageId := messageId
           conversationId := p.conversationId.getD ""
           userId := p.userId.getD ""
           city := p.city.getD ""
           outcome := p.outcome.getD ""
           refusalReason := p.refusalReason.getD "none"
           itemIds := p.itemIds.getD []
           restaurantIds := p.restaurantIds.getD []
           candidates := p.candidates.getD 0
           ungrounded := p.ungrounded.getD 0
           durationMs := p.durationMs.getD 0
           occurredAt := occurred }

def assistantRow : Event → Option AssistantFact
  | .interaction payload occurredAt => assistantValues payload occurredAt
  | _ => none

/-- The columns of the statement's `DO UPDATE`. -/
def AssistantFact.restate (old new : AssistantFact) : AssistantFact :=
  { new with conversationId := old.conversationId, userId := old.userId, city := old.city }

/-- The rows of the statement: the last one of each message. -/
def deduped (rows : List AssistantFact) : Dict String AssistantFact :=
  Dict.gather AssistantFact.messageId (fun row _ => row) rows

def upsertAssistantFact (t : AssistantFacts) (row : AssistantFact) : AssistantFacts :=
  t.insertOr row fun old => old.restate row

/-- `insert_assistant_facts`. -/
def insertAssistantFacts (t : AssistantFacts) (rows : List AssistantFact) : AssistantFacts :=
  (deduped rows).values.foldl upsertAssistantFact t

def AssistantFactsProjector.handleBatch (t : AssistantFacts) (events : List Event) :
    AssistantFacts :=
  insertAssistantFacts t (events.filterMap assistantRow)

def AssistantFactsProjector.handle (t : AssistantFacts) (event : Event) : AssistantFacts :=
  handleBatch t [event]

end Analytics
