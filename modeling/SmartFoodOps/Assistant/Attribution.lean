/-
Recommendations that are accepted: each showing and order once.

* `Showing`, `OrderItem`, `Acceptance` — what was shown, what was ordered, and what was taken of it;
* `orderRows`, `byOrder` — the dishes of an order, merged over a batch;
* `System`, `step` — any number of handlers, statement by statement, that may crash at any moment;
* `Accepts` — a showing and an order of the same user, in the window and with a dish in common;
* `mem_byOrder` — a batch has for each of its orders the dishes of that order;
* `accepted_of_run` — the table has one row for each pair that `Accepts`, and the outbox one event.
-/
import SmartFoodOps.Lib.Dict
import SmartFoodOps.Lib.Machine
import SmartFoodOps.Lib.Transaction
import SmartFoodOps.Analytics.Facts
import Mathlib.Data.String.Basic

open Machine Keyed Transaction
open Dispatch (OrderId)

namespace Assistant.Attribution

/-! ### Rows -/

/-- A row of `recommendations_shown`. -/
structure Showing where
  id : String
  userId : String
  itemIds : List String
  shownAt : ℕ
  deriving DecidableEq

/-- A row of `order_items`. -/
structure OrderItem where
  orderId : OrderId
  itemId : String
  restaurantId : String
  userId : String
  qty : ℤ
  placedAt : ℕ
  deriving DecidableEq

/-- A row of `recommendation_acceptances`. -/
structure Acceptance where
  shownId : String
  orderId : OrderId
  itemIds : List String
  acceptedAt : ℕ
  deriving DecidableEq

/-- The payload of `RecommendationAccepted`. -/
structure Staged where
  recommendationId : String
  orderId : OrderId
  itemIds : List String
  deriving DecidableEq

def orderItem (p : Order.Emission.Payload) (id : String) (qty : ℤ) : OrderItem :=
  ⟨p.orderId, id, p.restaurantId, p.userId.getD "", qty, p.placedAt⟩

/-- `order_rows`: one row for each dish, and the quantities of its lines summed. -/
def orderRows (p : Order.Emission.Payload) : List OrderItem :=
  (Dict.gather Prod.fst
    (fun line row => row.elim (orderItem p line.1 (line.2.qty.getD 0)) fun row =>
      { row with qty := row.qty + line.2.qty.getD 0 })
    (p.items.filterMap Analytics.lineItem)).values

/-- The rows of a batch; only `OrderPlaced` has some. -/
def batchRows (events : List Order.Emission.Event) : List OrderItem :=
  events.flatMap fun e => if e.type = .orderPlaced then orderRows e.payload else []

/-- An order, its user, and the time at which it was placed. -/
abbrev OrderKey := OrderId × String × ℕ

/-- `by_order`. -/
def byOrder (rows : List OrderItem) : Dict OrderKey (List String) :=
  Dict.gather (fun row => (row.orderId, row.userId, row.placedAt))
    (fun row ordered => (ordered.getD []).insert row.itemId) rows

/-- `sorted(ordered & set(shown_items))`. -/
def taken (ordered shownItems : List String) : List String :=
  (ordered.filter fun id => id ∈ shownItems).insertionSort (· ≤ ·)

abbrev Showings := Table Showing String Showing.id

/-- `recent_showings`. -/
def recentShowings (showings : Showings) (userId : String) (before window : ℕ) : List Showing :=
  showings.rows.filter fun shown =>
    shown.userId = userId ∧ shown.shownAt ≤ before ∧ before - window ≤ shown.shownAt

/-! ### Handlers -/

/-- What a batch has to do until it commits. -/
inductive Work
  | record (row : OrderItem)
  | attributeOrder (order : OrderKey) (ordered : List String)
  | claim (row : Acceptance)
  deriving DecidableEq

structure Handler where
  batch : List Order.Emission.Event
  todo : List Work
  deriving DecidableEq

structure System where
  orderItems : Rows (OrderId × String) OrderItem ℕ
  acceptances : Rows (String × OrderId) Acceptance ℕ
  outbox : Log Staged ℕ
  handlers : ℕ → Option Handler
  /-- The orders of the batches that have committed. -/
  handled : List Order.Emission.Payload

def System.empty : System := ⟨.empty, .empty, .empty, fun _ => none, []⟩

/-- `handle_batch`, before its first statement. -/
def Handler.start (events : List Order.Emission.Event) : Handler where
  batch := events
  todo := (batchRows events).map .record ++
    (byOrder (batchRows events)).entries.map fun e => .attributeOrder e.1 e.2

/-- The orders that a batch places. -/
def placedIn (events : List Order.Emission.Event) : List Order.Emission.Payload :=
  (events.filter fun e => e.type = .orderPlaced).map Order.Emission.Event.payload

/-- What is to be claimed for an order, showing by showing. -/
def claims (window : ℕ) (showings : Showings) (order : OrderKey) (ordered : List String) :
    List Work :=
  (recentShowings showings order.2.1 order.2.2 window).filterMap fun shown =>
    let items := taken ordered shown.itemIds
    if items = [] then none else some (.claim ⟨shown.id, order.1, items, order.2.2⟩)

def Acceptance.staged (a : Acceptance) : Staged := ⟨a.shownId, a.orderId, a.itemIds⟩

def System.put (s : System) (pid : ℕ) (h : Option Handler) : System :=
  { s with handlers := Function.update s.handlers pid h }

/-- One piece of work; `none` is a statement that waits. -/
def System.work (window : ℕ) (showings : Showings) (s : System) (pid : ℕ) (h : Handler)
    (todo : List Work) : Work → Option System
  | .record row =>
    (s.orderItems.insert pid (row.orderId, row.itemId) row).map fun r =>
      { s.put pid (some { h with todo }) with orderItems := r.1 }
  | .attributeOrder order ordered =>
    -- nothing to attribute a guest's order to
    if order.2.1 = "" then some (s.put pid (some { h with todo }))
    else some (s.put pid (some { h with todo := claims window showings order ordered ++ todo }))
  | .claim row =>
    (s.acceptances.insert pid (row.shownId, row.orderId) row).map fun r =>
      { s.put pid (some { h with todo }) with
        acceptances := r.1
        outbox := if r.2 then s.outbox.append pid [row.staged] else s.outbox }

inductive Label
  /-- A batch of the topic is delivered, perhaps not for the first time. -/
  | deliver (pid : ℕ) (events : List Order.Emission.Event)
  | run (pid : ℕ)
  | crash (pid : ℕ)
  deriving DecidableEq

section

variable (window : ℕ) (showings : Showings)
  (orders : Table Order.Emission.Payload OrderId Order.Emission.Payload.orderId)

/-- The orders that are placed are `orders`; the topic has other events too. -/
def OfTopic (events : List Order.Emission.Event) : Prop :=
  ∀ e ∈ events, e.type = .orderPlaced → e.payload ∈ orders

instance (events : List Order.Emission.Event) : Decidable (OfTopic orders events) :=
  inferInstanceAs (Decidable (∀ e ∈ events, e.type = .orderPlaced → e.payload ∈ orders))

def step (s : System) : Label → Option System
  | .deliver pid events =>
    if s.handlers pid = none ∧ OfTopic orders events then
      some (s.put pid (some (.start events)))
    else none
  | .run pid =>
    (s.handlers pid).bind fun h =>
      match h.todo with
      | w :: todo => s.work window showings pid h todo w
      | [] => some
        { s.put pid none with
          orderItems := s.orderItems.commit pid
          acceptances := s.acceptances.commit pid
          outbox := s.outbox.commit pid
          handled := s.handled ++ placedIn h.batch }
  | .crash pid => some
    { s.put pid none with
      orderItems := s.orderItems.rollback pid
      acceptances := s.acceptances.rollback pid
      outbox := s.outbox.rollback pid }

/-! ### What is to be counted -/

/-- The dish is on a line of the order. -/
def Ordered (p : Order.Emission.Payload) (id : String) : Prop :=
  id ≠ "" ∧ ∃ line ∈ p.items, line.menuItemId = some id

/-- The order took something of what its user was shown lately. -/
structure Accepts (shown : Showing) (p : Order.Emission.Payload) : Prop where
  user : p.userId.getD "" ≠ ""
  same : shown.userId = p.userId.getD ""
  before : shown.shownAt ≤ p.placedAt
  lately : p.placedAt - window ≤ shown.shownAt
  common : ∃ id ∈ shown.itemIds, Ordered p id

/-- The row of a showing and an order: what they have in common, once each and sorted. -/
structure IsRow (shown : Showing) (p : Order.Emission.Payload) (a : Acceptance) : Prop where
  shownId : a.shownId = shown.id
  orderId : a.orderId = p.orderId
  acceptedAt : a.acceptedAt = p.placedAt
  sorted : a.itemIds.Pairwise (· < ·)
  items : ∀ id, id ∈ a.itemIds ↔ id ∈ shown.itemIds ∧ Ordered p id

/-- The row is one of those that are to be there. -/
def Due (a : Acceptance) : Prop :=
  ∃ shown ∈ showings, ∃ p ∈ orders, Accepts window shown p ∧ IsRow shown p a

end

/-! ### The dishes of an order -/

def keyOf (p : Order.Emission.Payload) : OrderKey := (p.orderId, p.userId.getD "", p.placedAt)

def OrderItem.key (row : OrderItem) : OrderKey := (row.orderId, row.userId, row.placedAt)

/-- The entry of an order is the set of its dishes. -/
structure OfOrder (p : Order.Emission.Payload) (k : OrderKey) (ordered : List String) : Prop where
  key : k = keyOf p
  nodup : ordered.Nodup
  items : ∀ id, id ∈ ordered ↔ Ordered p id

variable {window : ℕ} {showings : Showings}
  {orders : Table Order.Emission.Payload OrderId Order.Emission.Payload.orderId}
  {p : Order.Emission.Payload} {shown : Showing} {events : List Order.Emission.Event}
  {k : OrderKey} {ordered : List String}
  {id : String}

theorem mem_lineItems {items : List Order.Emission.Line} {line : Order.Emission.Line} :
    (id, line) ∈ items.filterMap Analytics.lineItem ↔
      line ∈ items ∧ line.menuItemId = some id ∧ id ≠ "" := by
  rw [List.mem_filterMap]
  constructor
  · rintro ⟨line', hmem, hline⟩
    obtain ⟨id', hid, heq⟩ := Option.map_eq_some_iff.mp hline
    cases heq
    obtain ⟨hid, hne⟩ := Option.filter_eq_some_iff.mp hid
    exact ⟨hmem, hid, of_decide_eq_true hne⟩
  · rintro ⟨hmem, hid, hne⟩
    refine ⟨line, hmem, Option.map_eq_some_iff.mpr ⟨id, ?_, rfl⟩⟩
    exact Option.filter_eq_some_iff.mpr ⟨hid, decide_eq_true hne⟩

theorem mem_orderRows {row : OrderItem} (h : row ∈ orderRows p) :
    row.key = keyOf p ∧ Ordered p row.itemId := by
  obtain ⟨id, hget⟩ := Dict.mem_values.mp h
  obtain ⟨⟨id', line⟩, hmem, rfl⟩ := Dict.exists_of_get_gather hget
  obtain ⟨hline, hid, hne⟩ := mem_lineItems.mp hmem
  have hrow : row.key = keyOf p ∧ row.itemId = id' := by
    refine Dict.of_get_gather (P := fun id row => row.key = keyOf p ∧ row.itemId = id) ?_ hget
    intro x _ o ho
    cases o with
    | none => exact ⟨rfl, rfl⟩
    | some row => exact ho row rfl
  refine ⟨hrow.1, ?_⟩
  rw [hrow.2]
  exact ⟨hne, line, hline, hid⟩

theorem exists_mem_orderRows (h : Ordered p id) : ∃ row ∈ orderRows p, row.itemId = id := by
  obtain ⟨hne, line, hline, hid⟩ := h
  have hmem : (id, line) ∈ p.items.filterMap Analytics.lineItem :=
    mem_lineItems.mpr ⟨hline, hid, hne⟩
  obtain ⟨row, hget⟩ : ∃ row, (Dict.gather Prod.fst (fun line row =>
      row.elim (orderItem p line.1 (line.2.qty.getD 0)) fun row =>
        { row with qty := row.qty + line.2.qty.getD 0 })
      (p.items.filterMap Analytics.lineItem)).get (id, line).1 = some row :=
    Dict.get_gather_of_mem hmem
  refine ⟨row, Dict.mem_values.mpr ⟨id, hget⟩, ?_⟩
  refine Dict.of_get_gather (P := fun id row => row.itemId = id) ?_ hget
  intro x _ o ho
  cases o with
  | none => rfl
  | some row => exact ho row rfl

theorem mem_placedIn : p ∈ placedIn events ↔
    ∃ e ∈ events, e.type = .orderPlaced ∧ e.payload = p := by
  rw [placedIn, List.mem_map]
  constructor
  · rintro ⟨e, he, rfl⟩
    obtain ⟨he, htype⟩ := List.mem_filter.mp he
    exact ⟨e, he, of_decide_eq_true htype, rfl⟩
  · rintro ⟨e, he, htype, rfl⟩
    exact ⟨e, List.mem_filter.mpr ⟨he, decide_eq_true htype⟩, rfl⟩

theorem mem_batchRows {row : OrderItem} :
    row ∈ batchRows events ↔ ∃ p ∈ placedIn events, row ∈ orderRows p := by
  rw [batchRows, List.mem_flatMap]
  constructor
  · rintro ⟨e, he, hrow⟩
    split at hrow
    · next htype => exact ⟨e.payload, mem_placedIn.mpr ⟨e, he, htype, rfl⟩, hrow⟩
    · cases hrow
  · rintro ⟨p, hp, hrow⟩
    obtain ⟨e, he, htype, rfl⟩ := mem_placedIn.mp hp
    refine ⟨e, he, ?_⟩
    rwa [if_pos htype]

theorem OfTopic.mem (h : OfTopic orders events) (hp : p ∈ placedIn events) : p ∈ orders := by
  obtain ⟨e, he, htype, rfl⟩ := mem_placedIn.mp hp
  exact h e he htype

/-- The rows of a batch under the key of an order are those of the order. -/
theorem ordered_of_mem_batchRows (ht : OfTopic orders events) (hp : p ∈ orders) {row : OrderItem}
    (hrow : row ∈ batchRows events) (hkey : row.key = keyOf p) :
    p ∈ placedIn events ∧ Ordered p row.itemId := by
  obtain ⟨q, hq, hrow⟩ := mem_batchRows.mp hrow
  obtain ⟨hkey', hordered⟩ := mem_orderRows hrow
  have hid : q.orderId = p.orderId := congrArg Prod.fst (hkey'.symm.trans hkey)
  obtain rfl : q = p := Table.eq_of_key (ht.mem hq) hp hid
  exact ⟨hq, hordered⟩

/-- **An entry of a batch** is an order with its dishes, whatever else is in the batch. -/
theorem mem_byOrder (ht : OfTopic orders events)
    (h : (k, ordered) ∈ (byOrder (batchRows events)).entries) :
    ∃ p ∈ orders, OfOrder p k ordered := by
  have hget := Dict.mem_entries.mp h
  obtain ⟨hnodup, hitems⟩ := Dict.mem_get_gather_insert hget
  obtain ⟨row, hrow, rfl⟩ := Dict.exists_of_get_gather hget
  obtain ⟨p, hp, hrow'⟩ := mem_batchRows.mp hrow
  have hkey : row.key = keyOf p := (mem_orderRows hrow').1
  refine ⟨p, ht.mem hp, hkey, hnodup, ?_⟩
  intro id
  rw [hitems]
  constructor
  · rintro ⟨row', hmem, hkey', rfl⟩
    exact (ordered_of_mem_batchRows ht (ht.mem hp) hmem (Eq.trans hkey' hkey)).2
  · intro hid
    obtain ⟨row', hmem, hitem⟩ := exists_mem_orderRows hid
    exact ⟨row', mem_batchRows.mpr ⟨p, hp, hmem⟩, (mem_orderRows hmem).1.trans hkey.symm, hitem⟩

theorem exists_mem_byOrder (hp : p ∈ placedIn events) (hid : Ordered p id) :
    ∃ ordered, (keyOf p, ordered) ∈ (byOrder (batchRows events)).entries := by
  obtain ⟨row, hrow, -⟩ := exists_mem_orderRows hid
  have hmem : row ∈ batchRows events := mem_batchRows.mpr ⟨p, hp, hrow⟩
  obtain ⟨ordered, hget⟩ : ∃ ordered, (byOrder (batchRows events)).get row.key = some ordered :=
    Dict.get_gather_of_mem hmem
  rw [(mem_orderRows hrow).1] at hget
  exact ⟨ordered, Dict.mem_entries.mpr hget⟩

/-! ### The claims of an order -/

theorem mem_taken {shownItems : List String} :
    id ∈ taken ordered shownItems ↔ id ∈ ordered ∧ id ∈ shownItems := by
  rw [taken, List.mem_insertionSort, List.mem_filter, decide_eq_true_iff]

theorem sorted_taken {shownItems : List String} (h : ordered.Nodup) :
    (taken ordered shownItems).Pairwise (· < ·) := by
  have hsorted : (taken ordered shownItems).Pairwise (· ≤ ·) := List.pairwise_insertionSort _ _
  have hnodup : (taken ordered shownItems).Nodup :=
    (List.perm_insertionSort _ _).nodup_iff.mpr (h.filter _)
  exact (hsorted.and hnodup).imp fun h => lt_of_le_of_ne h.1 h.2

theorem mem_recentShowings {userId : String} {before : ℕ} :
    shown ∈ recentShowings showings userId before window ↔ shown ∈ showings ∧
      shown.userId = userId ∧ shown.shownAt ≤ before ∧ before - window ≤ shown.shownAt := by
  rw [recentShowings, List.mem_filter, decide_eq_true_iff]
  rfl

theorem mem_claims {w : Work} : w ∈ claims window showings k ordered ↔
    ∃ shown ∈ recentShowings showings k.2.1 k.2.2 window, taken ordered shown.itemIds ≠ [] ∧
      w = .claim ⟨shown.id, k.1, taken ordered shown.itemIds, k.2.2⟩ := by
  rw [claims, List.mem_filterMap]
  refine exists_congr fun shown => and_congr_right fun _ => ?_
  by_cases hnil : taken ordered shown.itemIds = []
  · simp [hnil]
  · simp [hnil, eq_comm]

/-- What is claimed is to be there, -/
theorem due_of_mem_claims (hp : p ∈ orders) (ho : OfOrder p k ordered) (hu : k.2.1 ≠ "")
    {a : Acceptance} (h : .claim a ∈ claims window showings k ordered) :
    Due window showings orders a := by
  obtain ⟨shown, hshown, hne, ha⟩ := mem_claims.mp h
  cases ha
  obtain ⟨hmem, huser, hbefore, hlately⟩ := mem_recentShowings.mp hshown
  obtain ⟨id, hid⟩ := List.exists_mem_of_ne_nil _ hne
  have hitems : ∀ id, id ∈ taken ordered shown.itemIds ↔ id ∈ shown.itemIds ∧ Ordered p id := by
    intro id
    rw [mem_taken, ho.items, and_comm]
  obtain rfl := ho.key
  refine ⟨shown, hmem, p, hp, ⟨hu, huser, hbefore, hlately, id, (hitems id).mp hid⟩, ?_⟩
  exact ⟨rfl, rfl, rfl, sorted_taken ho.nodup, hitems⟩

/-- and what is to be there is claimed. -/
theorem exists_mem_claims (hs : shown ∈ showings) (ho : OfOrder p k ordered)
    (h : Accepts window shown p) :
    ∃ a, .claim a ∈ claims window showings k ordered ∧ a.shownId = shown.id ∧
      a.orderId = p.orderId := by
  obtain rfl := ho.key
  refine ⟨_, mem_claims.mpr ⟨shown, mem_recentShowings.mpr ⟨hs, h.same, h.before, h.lately⟩, ?_,
    rfl⟩, rfl, rfl⟩
  obtain ⟨id, hid, hordered⟩ := h.common
  exact List.ne_nil_of_mem (mem_taken.mpr ⟨(ho.items id).mpr hordered, hid⟩)

/-! ### What is claimed, and what is still to be claimed -/

def Acceptance.key (a : Acceptance) : String × OrderId := (a.shownId, a.orderId)

def Staged.key (e : Staged) : String × OrderId := (e.recommendationId, e.orderId)

section

variable (window showings orders)

def Work.Sound : Work → Prop
  | .record _ => True
  | .attributeOrder k ordered => ∃ p ∈ orders, OfOrder p k ordered
  | .claim a => Due window showings orders a

/-- The work comes to the claim of the showing and the order. -/
def Work.Covers (shown : Showing) (p : Order.Emission.Payload) : Work → Prop
  | .record _ => False
  | .attributeOrder k ordered => OfOrder p k ordered
  | .claim a => a.shownId = shown.id ∧ a.orderId = p.orderId

/-- A handler has claimed, or is still to claim, what is due for its batch. -/
structure Handler.Inv (acceptances : Rows (String × OrderId) Acceptance ℕ) (pid : ℕ)
    (h : Handler) : Prop where
  topic : OfTopic orders h.batch
  sound : ∀ w ∈ h.todo, w.Sound window showings orders
  covers : ∀ p ∈ placedIn h.batch, ∀ shown ∈ showings, Accepts window shown p →
    (acceptances.read pid (shown.id, p.orderId)).isSome ∨ ∃ w ∈ h.todo, w.Covers shown p

structure Inv (s : System) : Prop where
  claimed : Claimed Staged.key Acceptance.staged s.acceptances s.outbox
  due : s.acceptances.All fun k a => a.key = k ∧ Due window showings orders a
  handlers : ∀ pid h, s.handlers pid = some h → h.Inv window showings orders s.acceptances pid
  handled : ∀ p ∈ s.handled, ∀ shown ∈ showings, Accepts window shown p →
    (s.acceptances.committed (shown.id, p.orderId)).isSome

end

variable {s s' : System} {pid : ℕ} {h : Handler} {w : Work} {todo : List Work}
  {acceptances acceptances' : Rows (String × OrderId) Acceptance ℕ}

/-- What a handler sees is not taken away from it. -/
theorem Handler.Inv.mono (hh : h.Inv window showings orders acceptances pid)
    (hread : ∀ k, (acceptances.read pid k).isSome → (acceptances'.read pid k).isSome) :
    h.Inv window showings orders acceptances' pid := by
  refine ⟨hh.topic, hh.sound, ?_⟩
  intro p hp shown hs ha
  exact (hh.covers p hp shown hs ha).imp_left (hread _)

/-- A batch that starts has all its claims before it. -/
theorem Handler.Inv.start (ht : OfTopic orders events) :
    (Handler.start events).Inv window showings orders acceptances pid := by
  refine ⟨ht, ?_, ?_⟩
  · intro w hw
    rcases List.mem_append.mp hw with hw | hw
    · obtain ⟨row, -, rfl⟩ := List.mem_map.mp hw
      trivial
    · obtain ⟨e, he, rfl⟩ := List.mem_map.mp hw
      exact mem_byOrder ht he
  · intro p hp shown _ ha
    obtain ⟨id, -, hid⟩ := ha.common
    obtain ⟨ordered, hmem⟩ := exists_mem_byOrder hp hid
    obtain ⟨q, hq, ho⟩ := mem_byOrder ht hmem
    have horder : q.orderId = p.orderId := congrArg Prod.fst ho.key.symm
    obtain rfl : q = p := Table.eq_of_key hq (ht.mem hp) horder
    exact .inr ⟨_, List.mem_append_right _ (List.mem_map.mpr ⟨_, hmem, rfl⟩), ho⟩

/-- A row is recorded: it is nobody's claim. -/
theorem Handler.Inv.record {batch : List Order.Emission.Event} {row : OrderItem}
    (hh : Handler.Inv window showings orders acceptances pid ⟨batch, .record row :: todo⟩) :
    Handler.Inv window showings orders acceptances pid ⟨batch, todo⟩ := by
  refine ⟨hh.topic, fun w hw => hh.sound w (List.mem_cons_of_mem _ hw), ?_⟩
  intro p hp shown hs ha
  rcases hh.covers p hp shown hs ha with hread | ⟨w, hw, hc⟩
  · exact .inl hread
  · rcases List.mem_cons.mp hw with rfl | hw
    · exact hc.elim
    · exact .inr ⟨w, hw, hc⟩

/-- A guest's order has no claims. -/
theorem Handler.Inv.guest {batch : List Order.Emission.Event} (hu : k.2.1 = "")
    (hh : Handler.Inv window showings orders acceptances pid
      ⟨batch, .attributeOrder k ordered :: todo⟩) :
    Handler.Inv window showings orders acceptances pid ⟨batch, todo⟩ := by
  refine ⟨hh.topic, fun w hw => hh.sound w (List.mem_cons_of_mem _ hw), ?_⟩
  intro p hp shown hs ha
  rcases hh.covers p hp shown hs ha with hread | ⟨w, hw, hc⟩
  · exact .inl hread
  · rcases List.mem_cons.mp hw with rfl | hw
    · have ho : OfOrder p k ordered := hc
      rw [ho.key] at hu
      exact absurd hu ha.user
    · exact .inr ⟨w, hw, hc⟩

/-- The showings of an order's user are read: its claims are still to be made. -/
theorem Handler.Inv.attributeOrder {batch : List Order.Emission.Event} (hu : k.2.1 ≠ "")
    (hh : Handler.Inv window showings orders acceptances pid
      ⟨batch, .attributeOrder k ordered :: todo⟩) :
    Handler.Inv window showings orders acceptances pid
      ⟨batch, claims window showings k ordered ++ todo⟩ := by
  obtain ⟨q, hq, ho⟩ : ∃ p ∈ orders, OfOrder p k ordered := hh.sound _ List.mem_cons_self
  refine ⟨hh.topic, ?_, ?_⟩
  · intro w hw
    rcases List.mem_append.mp hw with hw | hw
    · obtain ⟨shown, hshown, -, rfl⟩ := mem_claims.mp hw
      exact due_of_mem_claims hq ho hu hw
    · exact hh.sound w (List.mem_cons_of_mem _ hw)
  · intro p hp shown hs ha
    rcases hh.covers p hp shown hs ha with hread | ⟨w, hw, hc⟩
    · exact .inl hread
    · rcases List.mem_cons.mp hw with rfl | hw
      · obtain ⟨a, hmem, hclaim⟩ := exists_mem_claims hs hc ha
        exact .inr ⟨_, List.mem_append_left _ hmem, hclaim⟩
      · exact .inr ⟨w, List.mem_append_right _ hw, hc⟩

/-- A claim is made: the handler has won it, or finds it made. -/
theorem Handler.Inv.claim {batch : List Order.Emission.Event} {a : Acceptance} {won : Bool}
    (hi : acceptances.insert pid a.key a = some (acceptances', won))
    (hh : Handler.Inv window showings orders acceptances pid ⟨batch, .claim a :: todo⟩) :
    Handler.Inv window showings orders acceptances' pid ⟨batch, todo⟩ := by
  refine ⟨hh.topic, fun w hw => hh.sound w (List.mem_cons_of_mem _ hw), ?_⟩
  intro p hp shown hs ha
  rcases hh.covers p hp shown hs ha with hread | ⟨w, hw, hc⟩
  · exact .inl (Rows.isSome_read_insert hi hread)
  · rcases List.mem_cons.mp hw with rfl | hw
    · have hkey : a.key = (shown.id, p.orderId) := Prod.ext hc.1 hc.2
      rw [← hkey]
      exact .inl (Rows.isSome_read_insert_self hi)
    · exact .inr ⟨w, hw, hc⟩

/-! ### Every run -/

theorem Inv.empty : Inv window showings orders .empty :=
  ⟨.empty, .empty, by rintro pid h ⟨⟩, by rintro p ⟨⟩⟩

/-- One handler goes on, or comes to its end. -/
theorem Inv.put {o : Option Handler} (hs : Inv window showings orders s)
    (hhandlers : s'.handlers = Function.update s.handlers pid o)
    (hclaimed : Claimed Staged.key Acceptance.staged s'.acceptances s'.outbox)
    (hdue : s'.acceptances.All fun k a => a.key = k ∧ Due window showings orders a)
    (hread : ∀ u k, u ≠ pid → (s.acceptances.read u k).isSome → (s'.acceptances.read u k).isSome)
    (ho : ∀ h, o = some h → h.Inv window showings orders s'.acceptances pid)
    (hhandled : ∀ p ∈ s'.handled, ∀ shown ∈ showings, Accepts window shown p →
      (s'.acceptances.committed (shown.id, p.orderId)).isSome) :
    Inv window showings orders s' := by
  refine ⟨hclaimed, hdue, ?_, hhandled⟩
  intro u h hh
  rw [hhandlers] at hh
  by_cases hu : u = pid
  · subst hu
    rw [Function.update_self] at hh
    exact ho h hh
  · rw [Function.update_of_ne hu] at hh
    exact (hs.handlers u h hh).mono fun k => hread u k hu

theorem Inv.work (hs : Inv window showings orders s) (hh : s.handlers pid = some h)
    (htodo : h.todo = w :: todo) (hw : s.work window showings pid h todo w = some s') :
    Inv window showings orders s' := by
  obtain ⟨batch, todo'⟩ := h
  obtain rfl : todo' = w :: todo := htodo
  have hinv := hs.handlers pid _ hh
  cases w with
  | record row =>
    obtain ⟨r, -, rfl⟩ := Option.map_eq_some_iff.mp hw
    refine hs.put rfl hs.claimed hs.due (fun _ _ _ => id) ?_ hs.handled
    rintro h ⟨⟩
    exact hinv.record
  | attributeOrder k ordered =>
    rw [System.work] at hw
    split at hw
    · next hu =>
      obtain rfl := Option.some.inj hw
      refine hs.put rfl hs.claimed hs.due (fun _ _ _ => id) ?_ hs.handled
      rintro h ⟨⟩
      exact hinv.guest hu
    · next hu =>
      obtain rfl := Option.some.inj hw
      refine hs.put rfl hs.claimed hs.due (fun _ _ _ => id) ?_ hs.handled
      rintro h ⟨⟩
      exact hinv.attributeOrder hu
  | claim a =>
    obtain ⟨⟨acceptances', won⟩, hi, rfl⟩ := Option.map_eq_some_iff.mp hw
    have hdue : Due window showings orders a := hinv.sound _ List.mem_cons_self
    refine hs.put rfl (hs.claimed.insert rfl hi) (hs.due.insert ⟨rfl, hdue⟩ hi)
      (fun _ _ _ => Rows.isSome_read_insert hi) ?_ ?_
    · rintro h ⟨⟩
      exact hinv.claim hi
    · intro p hp shown hshown ha
      show (acceptances'.committed _).isSome
      have hsome := hs.handled p hp shown hshown ha
      rcases Rows.insert_cases hi with ⟨-, rfl, -⟩ | ⟨-, -, -, rfl⟩
      · exact hsome
      · exact hsome

/-- A batch commits when it has made its claims. -/
theorem Inv.commit (hs : Inv window showings orders s) (hh : s.handlers pid = some h)
    (htodo : h.todo = []) :
    Inv window showings orders { s.put pid none with
      orderItems := s.orderItems.commit pid
      acceptances := s.acceptances.commit pid
      outbox := s.outbox.commit pid
      handled := s.handled ++ placedIn h.batch } := by
  have hinv := hs.handlers pid h hh
  refine hs.put rfl hs.claimed.commit hs.due.commit
    (fun _ _ _ => Rows.isSome_read_commit hs.due) (by rintro h ⟨⟩) ?_
  intro p hp shown hshown ha
  show (s.acceptances.read pid _).isSome
  rcases List.mem_append.mp hp with hp | hp
  · -- what was committed before is still there
    have hsome := hs.handled p hp shown hshown ha
    by_cases hw : ∃ v, s.acceptances.pending (shown.id, p.orderId) = some (pid, v)
    · obtain ⟨v, hv⟩ := hw
      obtain ⟨a, rfl, -⟩ := hs.due.pending _ _ _ hv
      rw [Rows.read_of_pending hv]
      rfl
    · rwa [Rows.read_of_not_pending fun v hv => hw ⟨v, hv⟩]
  · rcases hinv.covers p hp shown hshown ha with hread | ⟨w, hw, -⟩
    · exact hread
    · rw [htodo] at hw
      cases hw

theorem Inv.step {l : Label} (hs : Inv window showings orders s)
    (hstep : Attribution.step window showings orders s l = some s') :
    Inv window showings orders s' := by
  cases l with
  | deliver pid events =>
    rw [Attribution.step] at hstep
    split at hstep
    · next hc =>
      obtain rfl := Option.some.inj hstep
      refine hs.put rfl hs.claimed hs.due (fun _ _ _ => id) ?_ hs.handled
      rintro h ⟨⟩
      exact .start hc.2
    · cases hstep
  | run pid =>
    obtain ⟨h, hh, hstep⟩ := Option.bind_eq_some_iff.mp hstep
    split at hstep
    · next w todo htodo => exact hs.work hh htodo hstep
    · next htodo =>
      obtain rfl := Option.some.inj hstep
      exact hs.commit hh htodo
  | crash pid =>
    obtain rfl := Option.some.inj hstep
    refine hs.put rfl hs.claimed.rollback hs.due.rollback ?_ (by rintro h ⟨⟩) hs.handled
    intro u k hu hread
    show ((s.acceptances.rollback pid).read u k).isSome
    rwa [Rows.read_rollback_other hu]

/-- **Counted once.**  When every order has been in a batch that committed, the table has a row
for each showing and order that `Accepts`, which is what they have in common, and no other row; and
the outbox has the one event of each row, and no other event. -/
theorem accepted_of_run {ls : List Label}
    (hrun : Run (step window showings orders) Always .empty ls s)
    (hall : ∀ p ∈ orders, p ∈ s.handled) :
    (∀ shown ∈ showings, ∀ p ∈ orders, Accepts window shown p →
      ∃ a, s.acceptances.committed (shown.id, p.orderId) = some a ∧ IsRow shown p a) ∧
    (∀ k a, s.acceptances.committed k = some a → ∃ shown ∈ showings, ∃ p ∈ orders,
      k = (shown.id, p.orderId) ∧ Accepts window shown p ∧ IsRow shown p a) ∧
    ∀ k, (s.outbox.committed.filter fun e => e.key = k) =
      (s.acceptances.committed k).toList.map Acceptance.staged := by
  have hs : Inv window showings orders s :=
    hrun.invariant (I := Inv window showings orders) .empty fun _ _ _ h _ hstep => h.step hstep
  have hsound : ∀ k a, s.acceptances.committed k = some a → ∃ shown ∈ showings, ∃ p ∈ orders,
      k = (shown.id, p.orderId) ∧ Accepts window shown p ∧ IsRow shown p a := by
    intro k a ha
    obtain ⟨rfl, shown, hshown, p, hp, haccepts, hrow⟩ := hs.due.committed k a ha
    exact ⟨shown, hshown, p, hp, Prod.ext hrow.shownId hrow.orderId, haccepts, hrow⟩
  refine ⟨?_, hsound, hs.claimed.committed⟩
  intro shown hshown p hp ha
  obtain ⟨a, hcommitted⟩ := Option.isSome_iff_exists.mp (hs.handled p (hall p hp) shown hshown ha)
  obtain ⟨shown', hshown', p', hp', hkey, -, hrow⟩ := hsound _ a hcommitted
  obtain ⟨hid, horder⟩ := Prod.mk.inj hkey
  obtain rfl : shown = shown' := Table.eq_of_key hshown hshown' hid
  obtain rfl : p = p' := Table.eq_of_key hp hp' horder
  exact ⟨a, hcommitted, hrow⟩

/-- An order of one of two dishes that were shown. -/
def oneShowing : Showings := Table.empty.put ⟨"rec_1", "u1", ["i1", "i2"], 5⟩

def oneOrder : Order.Emission.Payload where
  orderId := "o1"
  userId := some "u1"
  restaurantId := "r1"
  brandId := none
  status := .placed
  items := [⟨some "i1", none, some 1, none⟩]
  totals := ⟨none, none⟩
  placedAt := 7

/-- Two handlers have the order twice, and one of them crashes when it has claimed. -/
def twice : List Label :=
  [.deliver 0 [⟨.orderPlaced, oneOrder⟩, ⟨.orderPlaced, oneOrder⟩], .run 0, .run 0, .run 0, .run 0,
    .deliver 1 [⟨.orderPlaced, oneOrder⟩], .crash 0, .run 1, .run 1, .run 1, .run 1,
    .deliver 0 [⟨.orderPlaced, oneOrder⟩], .run 0, .run 0, .run 0, .run 0]

theorem accepted_of_run_twice : ∃ s, Run (step 2 oneShowing (Table.empty.put oneOrder)) Always
    .empty twice s ∧ (s.outbox.committed.filter fun e => e.key = ("rec_1", "o1")) =
      (s.acceptances.committed ("rec_1", "o1")).toList.map Acceptance.staged := by
  obtain ⟨s, hs, hp⟩ : ∃ s, Run (step 2 oneShowing (Table.empty.put oneOrder)) Always .empty
      twice s ∧ decide (∀ p ∈ (Table.empty.put oneOrder :
        Table Order.Emission.Payload OrderId Order.Emission.Payload.orderId).rows,
          p ∈ s.handled) = true := exists_run_of_execOk (by decide)
  exact ⟨s, hs, (accepted_of_run hs (of_decide_eq_true hp)).2.2 _⟩

end Assistant.Attribution
