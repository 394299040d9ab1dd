/-
`InventoryService`: stock, kitchen slots and the reservation ledger.

Every operation is one transaction, so it is one function on the tables; a
transaction that raises leaves them as they were.  The guards of the UPDATE
statements are the guards here.

* `reserve_reservations`, `finish_reservations` — what the operations do to the ledger;
* `Counted` — a kitchen's `active` counts its active reservations, in every state
  that the operations lead to.

Left out: `created_at` and `updated_at`, the outbox ids, and the item ids that
`InsufficientStock` reports.
-/
import SmartFoodOps.Dispatch.Stores
import Mathlib.Data.Finset.Card
import Mathlib.Logic.Function.Basic

open Dispatch (OrderId)

namespace Inventory

abbrev RestaurantId := String

abbrev ItemId := String

inductive ReservationStatus
  | active
  | released
  | consumed
  | expired
  deriving DecidableEq, Repr

structure ReservationLine where
  itemId : ItemId
  qty : ℕ
  deriving DecidableEq, Repr

structure Reservation where
  restaurantId : RestaurantId
  lines : List ReservationLine
  status : ReservationStatus
  expiresAt : ℕ
  deriving DecidableEq, Repr

/-- A row of `restaurant_load`: kitchen slots as stock. -/
structure Load where
  active : ℕ
  capacity : ℕ
  deriving DecidableEq, Repr

/-- The `reason` of a release: the saga's compensation, or the reaper. -/
inductive ReleaseReason
  | cancelled
  | expired
  deriving DecidableEq, Repr

inductive InventoryEvent
  | stockAdjusted (restaurant : RestaurantId) (item : ItemId) (available : ℕ)
  | stockReserved (order : OrderId) (restaurant : RestaurantId) (lines : List ReservationLine)
  | reservationReleased (order : OrderId) (restaurant : RestaurantId)
      (lines : List ReservationLine) (status : ReservationStatus) (reason : ReleaseReason)
  | reservationConsumed (order : OrderId) (restaurant : RestaurantId)
      (lines : List ReservationLine)
  deriving DecidableEq, Repr

/-- inventory_db. -/
structure Db where
  stock : RestaurantId → ItemId → Option ℕ
  loads : RestaurantId → Option Load
  reservations : OrderId → Option Reservation
  outbox : List InventoryEvent

def Db.empty : Db := ⟨fun _ _ => none, fun _ => none, fun _ => none, []⟩

structure Config where
  defaultCapacity : ℕ := 10
  reservationTtlSeconds : ℕ := 1800

/-- `ttl_seconds or self._ttl`. -/
def Config.ttl (cfg : Config) : Option ℕ → ℕ
  | none | some 0 => cfg.reservationTtlSeconds
  | some (n + 1) => n + 1

inductive ReserveError
  | insufficientStock
  | atCapacity
  deriving DecidableEq, Repr

namespace Db

/-! ### The statements -/

def setStockRow (db : Db) (restaurant : RestaurantId) (item : ItemId) (available : ℕ) : Db :=
  { db with stock := Function.update db.stock restaurant
              (Function.update (db.stock restaurant) item (some available)) }

def setLoad (db : Db) (restaurant : RestaurantId) (load : Load) : Db :=
  { db with loads := Function.update db.loads restaurant (some load) }

def setReservation (db : Db) (order : OrderId) (r : Reservation) : Db :=
  { db with reservations := Function.update db.reservations order (some r) }

def stageEvent (db : Db) (event : InventoryEvent) : Db := { db with outbox := db.outbox ++ [event] }

/-- `_ensure_load_row`. -/
def ensureLoadRow (db : Db) (restaurant : RestaurantId) (capacity : ℕ) : Db :=
  match db.loads restaurant with
  | none => db.setLoad restaurant ⟨0, capacity⟩
  | some _ => db

/-- `WHERE active < capacity`. -/
def occupySlot (db : Db) (restaurant : RestaurantId) : Option Db :=
  match db.loads restaurant with
  | none => none
  | some load =>
    if load.active < load.capacity then
      some (db.setLoad restaurant { load with active := load.active + 1 })
    else none

/-- `WHERE active > 0`. -/
def freeSlot (db : Db) (restaurant : RestaurantId) : Db :=
  match db.loads restaurant with
  | none => db
  | some load =>
    if 0 < load.active then db.setLoad restaurant { load with active := load.active - 1 } else db

/-- `WHERE available >= qty`. -/
def decrementStock (db : Db) (restaurant : RestaurantId) (line : ReservationLine) : Option Db :=
  match db.stock restaurant line.itemId with
  | none => none
  | some available =>
    if line.qty ≤ available then
      some (db.setStockRow restaurant line.itemId (available - line.qty))
    else none

/-- A stock row that vanished is skipped. -/
def incrementStock (db : Db) (restaurant : RestaurantId) (line : ReservationLine) : Db :=
  match db.stock restaurant line.itemId with
  | none => db
  | some available => db.setStockRow restaurant line.itemId (available + line.qty)

/-- `finish_reservation`: active → target, or no row. -/
def finishReservation (db : Db) (order : OrderId) (target : ReservationStatus) :
    Option (Db × Reservation) :=
  match db.reservations order with
  | none => none
  | some r =>
    if r.status = .active then some (db.setReservation order { r with status := target }, r)
    else none

end Db

/-! ### The operations -/

/-- The lines that the pre-check reports short. -/
def short (db : Db) (restaurant : RestaurantId) (lines : List ReservationLine) : Prop :=
  ∃ line ∈ lines, (db.stock restaurant line.itemId).getD 0 < line.qty

instance (db : Db) (restaurant : RestaurantId) (lines : List ReservationLine) :
    Decidable (short db restaurant lines) :=
  inferInstanceAs (Decidable (∃ line ∈ lines, _))

/-- The decrements of all lines, or none of them. -/
def decrementAll (restaurant : RestaurantId) : Db → List ReservationLine → Option Db
  | db, [] => some db
  | db, line :: lines =>
    (db.decrementStock restaurant line).bind fun db => decrementAll restaurant db lines

/-- `reserve`: `created` is false when the reservation was there. -/
def reserve (cfg : Config) (db : Db) (order : OrderId) (restaurant : RestaurantId)
    (lines : List ReservationLine) (ttl : Option ℕ) (now : ℕ) : Except ReserveError (Db × Bool) :=
  match db.reservations order with
  | some _ => .ok (db, false)
  | none =>
    match (db.ensureLoadRow restaurant cfg.defaultCapacity).occupySlot restaurant with
    | none => .error .atCapacity
    | some occupied =>
      if short occupied restaurant lines then .error .insufficientStock
      else
        match decrementAll restaurant occupied lines with
        | none => .error .insufficientStock
        | some taken =>
          .ok ((taken.setReservation order
            ⟨restaurant, lines, .active, now + cfg.ttl ttl⟩).stageEvent
              (.stockReserved order restaurant lines), true)

def ReleaseReason.target : ReleaseReason → ReservationStatus
  | .cancelled => .released
  | .expired => .expired

/-- `release`. -/
def release (db : Db) (order : OrderId) (reason : ReleaseReason) : Db × Bool :=
  match db.finishReservation order reason.target with
  | none => (db, false)
  | some (finished, r) =>
    (((r.lines.foldl (fun db line => db.incrementStock r.restaurantId line) finished).freeSlot
      r.restaurantId).stageEvent
        (.reservationReleased order r.restaurantId r.lines reason.target reason), true)

/-- `commit`. -/
def commit (db : Db) (order : OrderId) : Db × Bool :=
  match db.finishReservation order .consumed with
  | none => (db, false)
  | some (finished, r) =>
    ((finished.freeSlot r.restaurantId).stageEvent
      (.reservationConsumed order r.restaurantId r.lines), true)

/-- `overdue_reservations`: what a reaper pass selects.  The statement takes the
oldest; any choice of at most `limit` is allowed here. -/
def Overdue (db : Db) (now limit : ℕ) (orders : List OrderId) : Prop :=
  orders.length ≤ limit ∧ ∀ order ∈ orders,
    ∃ r, db.reservations order = some r ∧ r.status = .active ∧ r.expiresAt < now

instance (db : Db) (now limit : ℕ) (orders : List OrderId) : Decidable (Overdue db now limit orders) :=
  have : ∀ order, Decidable
      (∃ r, db.reservations order = some r ∧ r.status = .active ∧ r.expiresAt < now) := fun order =>
    match h : db.reservations order with
    | none => isFalse (by simp)
    | some r =>
      decidable_of_iff (r.status = .active ∧ r.expiresAt < now) (by simp)
  inferInstanceAs (Decidable (_ ∧ ∀ order ∈ orders, _))

/-- `set_stock`. -/
def setStock (db : Db) (restaurant : RestaurantId) (item : ItemId) (available : ℕ) : Db :=
  (db.setStockRow restaurant item available).stageEvent (.stockAdjusted restaurant item available)

/-- `set_capacity`. -/
def setCapacity (db : Db) (restaurant : RestaurantId) (capacity : ℕ) : Db :=
  match db.loads restaurant with
  | none => db.setLoad restaurant ⟨0, capacity⟩
  | some load => db.setLoad restaurant { load with capacity := capacity }

/-- `insert_stock`, of a zero row. -/
def insertStock (restaurant : RestaurantId) (db : Db) (item : ItemId) : Db :=
  match db.stock restaurant item with
  | none => db.setStockRow restaurant item 0
  | some _ => db

/-- `StockProvisioningHandler.handle`: what is not there yet is inserted. -/
def provision (cfg : Config) (db : Db) (restaurant : RestaurantId) (items : List ItemId) : Db :=
  (items.foldl (insertStock restaurant) db).ensureLoadRow restaurant cfg.defaultCapacity

/-! ### What the operations do to the ledger -/

section

variable {cfg : Config} {db db' : Db} {order : OrderId} {restaurant : RestaurantId}
  {lines : List ReservationLine} {ttl : Option ℕ} {now : ℕ} {target : ReservationStatus}
  {r : Reservation}

/-- The reservations and the events, which the counters are not part of. -/
def Db.ledger (db : Db) : (OrderId → Option Reservation) × List InventoryEvent :=
  (db.reservations, db.outbox)

theorem ensureLoadRow_ledger (db : Db) (restaurant : RestaurantId) (capacity : ℕ) :
    (db.ensureLoadRow restaurant capacity).ledger = db.ledger := by
  unfold Db.ensureLoadRow
  split <;> rfl

theorem occupySlot_ledger (h : db.occupySlot restaurant = some db') : db'.ledger = db.ledger := by
  unfold Db.occupySlot at h
  split at h
  · cases h
  · split at h
    · cases h; rfl
    · cases h

theorem freeSlot_ledger (db : Db) (restaurant : RestaurantId) :
    (db.freeSlot restaurant).ledger = db.ledger := by
  unfold Db.freeSlot
  split
  · rfl
  · split <;> rfl

theorem decrementStock_ledger {line : ReservationLine}
    (h : db.decrementStock restaurant line = some db') :
    db'.ledger = db.ledger ∧ db'.loads = db.loads := by
  unfold Db.decrementStock at h
  split at h
  · cases h
  · split at h
    · cases h; exact ⟨rfl, rfl⟩
    · cases h

theorem decrementAll_ledger (h : decrementAll restaurant db lines = some db') :
    db'.ledger = db.ledger ∧ db'.loads = db.loads := by
  induction lines generalizing db with
  | nil => cases h; exact ⟨rfl, rfl⟩
  | cons line lines ih =>
    obtain ⟨mid, hmid, h⟩ := Option.bind_eq_some_iff.mp h
    have hstep := decrementStock_ledger hmid
    exact ⟨(ih h).1.trans hstep.1, (ih h).2.trans hstep.2⟩

theorem incrementStock_ledger (db : Db) (restaurant : RestaurantId) (line : ReservationLine) :
    (db.incrementStock restaurant line).ledger = db.ledger ∧
      (db.incrementStock restaurant line).loads = db.loads := by
  unfold Db.incrementStock
  split <;> exact ⟨rfl, rfl⟩

theorem incrementAll_ledger (db : Db) (restaurant : RestaurantId) (lines : List ReservationLine) :
    (lines.foldl (fun db line => db.incrementStock restaurant line) db).ledger = db.ledger ∧
      (lines.foldl (fun db line => db.incrementStock restaurant line) db).loads = db.loads := by
  induction lines generalizing db with
  | nil => exact ⟨rfl, rfl⟩
  | cons line lines ih =>
    have hstep := incrementStock_ledger db restaurant line
    have hrest := ih (db.incrementStock restaurant line)
    exact ⟨hrest.1.trans hstep.1, hrest.2.trans hstep.2⟩

theorem insertAll_ledger (db : Db) (restaurant : RestaurantId) (items : List ItemId) :
    (items.foldl (insertStock restaurant) db).ledger = db.ledger ∧
      (items.foldl (insertStock restaurant) db).loads = db.loads := by
  induction items generalizing db with
  | nil => exact ⟨rfl, rfl⟩
  | cons item items ih =>
    have hstep : (insertStock restaurant db item).ledger = db.ledger ∧
        (insertStock restaurant db item).loads = db.loads := by
      unfold insertStock
      split <;> exact ⟨rfl, rfl⟩
    have hrest := ih (insertStock restaurant db item)
    exact ⟨hrest.1.trans hstep.1, hrest.2.trans hstep.2⟩

theorem provision_ledger (cfg : Config) (db : Db) (restaurant : RestaurantId)
    (items : List ItemId) : (provision cfg db restaurant items).ledger = db.ledger :=
  (ensureLoadRow_ledger _ _ _).trans (insertAll_ledger db restaurant items).1

theorem setCapacity_ledger (db : Db) (restaurant : RestaurantId) (capacity : ℕ) :
    (setCapacity db restaurant capacity).ledger = db.ledger := by
  unfold setCapacity
  split <;> rfl

/-- A reservation that is there is replayed; otherwise a new one is made, in a free
slot of the kitchen. -/
theorem reserve_ok {created : Bool}
    (h : reserve cfg db order restaurant lines ttl now = .ok (db', created)) :
    (db' = db ∧ created = false ∧ ∃ r, db.reservations order = some r) ∨
    (created = true ∧ db.reservations order = none ∧
      db'.ledger = (Function.update db.reservations order
          (some ⟨restaurant, lines, .active, now + cfg.ttl ttl⟩),
        db.outbox ++ [.stockReserved order restaurant lines]) ∧
      ∃ load, db'.loads = Function.update (db.ensureLoadRow restaurant cfg.defaultCapacity).loads
          restaurant (some { load with active := load.active + 1 }) ∧
        (db.ensureLoadRow restaurant cfg.defaultCapacity).loads restaurant = some load) := by
  unfold reserve at h
  split at h
  · next r hr =>
    cases h
    exact .inl ⟨rfl, rfl, r, hr⟩
  · next hnone =>
    split at h
    · cases h
    · next occupied hocc =>
      split at h
      · cases h
      · split at h
        · cases h
        · next taken htaken =>
          cases h
          obtain ⟨hl, hloads⟩ := decrementAll_ledger htaken
          have hledger : taken.ledger = db.ledger :=
            hl.trans ((occupySlot_ledger hocc).trans (ensureLoadRow_ledger db _ _))
          have hres : taken.reservations = db.reservations := congrArg Prod.fst hledger
          have hout : taken.outbox = db.outbox := congrArg Prod.snd hledger
          refine .inr ⟨rfl, hnone, ?_, ?_⟩
          · simp [Db.ledger, Db.stageEvent, Db.setReservation, hres, hout]
          · unfold Db.occupySlot at hocc
            split at hocc
            · cases hocc
            · next load hload =>
              split at hocc
              · cases hocc
                exact ⟨load, hloads, hload⟩
              · cases hocc

theorem finishReservation_eq_none :
    db.finishReservation order target = none ↔
      ∀ r, db.reservations order = some r → r.status ≠ .active := by
  unfold Db.finishReservation
  split
  · next h => simp [h]
  · next r h =>
    by_cases hs : r.status = .active <;> simp [h, hs]

/-- The ledger once the finished reservation and its event have been written. -/
theorem stageEvent_ledger {d : Db} {q : Reservation} (event : InventoryEvent)
    (h : d.ledger = (db.setReservation order q).ledger) :
    (d.stageEvent event).ledger =
      (Function.update db.reservations order (some q), db.outbox ++ [event]) := by
  have hres : d.reservations = _ := congrArg Prod.fst h
  have hout : d.outbox = _ := congrArg Prod.snd h
  simp only [Db.ledger, Db.stageEvent]
  rw [hres, hout]
  rfl

/-- Freeing a slot is about the counters only. -/
theorem freeSlot_loads {d : Db} (h : d.loads = db.loads) :
    (d.freeSlot restaurant).loads = (db.freeSlot restaurant).loads := by
  unfold Db.freeSlot
  rw [h]
  cases db.loads restaurant with
  | none => exact h
  | some load =>
    dsimp only
    split
    · simp [Db.setLoad, h]
    · exact h

/-- A release of a reservation that is not active is a no-op. -/
theorem release_of_not_active {reason : ReleaseReason}
    (h : ∀ r, db.reservations order = some r → r.status ≠ .active) :
    release db order reason = (db, false) := by
  rw [release, finishReservation_eq_none.mpr h]

theorem release_of_active (reason : ReleaseReason) (hr : db.reservations order = some r)
    (hs : r.status = .active) :
    (release db order reason).2 = true ∧
    (release db order reason).1.ledger =
      (Function.update db.reservations order (some { r with status := reason.target }),
        db.outbox ++ [.reservationReleased order r.restaurantId r.lines reason.target reason]) ∧
    (release db order reason).1.loads = (db.freeSlot r.restaurantId).loads := by
  have hfin : db.finishReservation order reason.target =
      some (db.setReservation order { r with status := reason.target }, r) := by
    simp [Db.finishReservation, hr, hs]
  rw [release, hfin]
  obtain ⟨hl, hloads⟩ := incrementAll_ledger
    (db.setReservation order { r with status := reason.target }) r.restaurantId r.lines
  refine ⟨rfl, stageEvent_ledger _ ((freeSlot_ledger _ _).trans hl), ?_⟩
  exact freeSlot_loads (hloads.trans rfl)

/-- A commit of a reservation that is not active is a no-op, answered `False`. -/
theorem commit_of_not_active (h : ∀ r, db.reservations order = some r → r.status ≠ .active) :
    commit db order = (db, false) := by
  rw [commit, finishReservation_eq_none.mpr h]

theorem commit_of_active (hr : db.reservations order = some r) (hs : r.status = .active) :
    (commit db order).2 = true ∧
    (commit db order).1.ledger =
      (Function.update db.reservations order (some { r with status := .consumed }),
        db.outbox ++ [.reservationConsumed order r.restaurantId r.lines]) ∧
    (commit db order).1.loads = (db.freeSlot r.restaurantId).loads := by
  have hfin : db.finishReservation order .consumed =
      some (db.setReservation order { r with status := .consumed }, r) := by
    simp [Db.finishReservation, hr, hs]
  rw [commit, hfin]
  exact ⟨rfl, stageEvent_ledger _ (freeSlot_ledger _ _), freeSlot_loads rfl⟩

end

/-! ### What an order sees of the ledger -/

/-- An event that returns the order's quantities to stock. -/
def InventoryEvent.releases (order : OrderId) : InventoryEvent → Bool
  | .reservationReleased o _ _ _ _ => o = order
  | _ => false

/-- The status of the order's reservation, and whether its quantities went back. -/
def standing (db : Db) (order : OrderId) : Option ReservationStatus × Bool :=
  ((db.reservations order).map (·.status), db.outbox.any (·.releases order))

section

variable {cfg : Config} {db db' : Db} {order : OrderId} {restaurant : RestaurantId}
  {lines : List ReservationLine} {ttl : Option ℕ} {now : ℕ}

theorem standing_congr (h : db'.ledger = db.ledger) : standing db' = standing db := by
  have hres : db'.reservations = db.reservations := congrArg Prod.fst h
  have hout : db'.outbox = db.outbox := congrArg Prod.snd h
  funext order
  rw [standing, standing, hres, hout]

/-- A reservation written with its event. -/
theorem standing_written {q : Reservation} {event : InventoryEvent} (other : OrderId)
    (h : db'.ledger = (Function.update db.reservations order (some q), db.outbox ++ [event])) :
    standing db' order = (some q.status, (standing db order).2 || event.releases order) ∧
      (other ≠ order → event.releases other = false → standing db' other = standing db other) := by
  have hres : db'.reservations = _ := congrArg Prod.fst h
  have hout : db'.outbox = _ := congrArg Prod.snd h
  constructor
  · simp [standing, hres, hout]
  · intro ho he
    simp [standing, hres, hout, Function.update_of_ne ho, he]

theorem standing_reserve (other : OrderId) {created : Bool}
    (h : reserve cfg db order restaurant lines ttl now = .ok (db', created)) :
    standing db' order = (some ((standing db order).1.getD .active), (standing db order).2) ∧
      (other ≠ order → standing db' other = standing db other) := by
  rcases reserve_ok h with ⟨rfl, -, r, hr⟩ | ⟨-, hnone, hledger, -⟩
  · exact ⟨by simp [standing, hr], fun _ => rfl⟩
  · obtain ⟨hown, hother⟩ := standing_written other hledger
    refine ⟨?_, fun ho => hother ho rfl⟩
    rw [hown]
    simp [standing, hnone, InventoryEvent.releases]

/-- A refusal to reserve is given only where there is no reservation. -/
theorem standing_of_reserve_error {e : ReserveError}
    (h : reserve cfg db order restaurant lines ttl now = .error e) :
    (standing db order).1 = none := by
  unfold reserve at h
  split at h
  · cases h
  · next hnone => simp [standing, hnone]

theorem not_active_of_standing (h : (standing db order).1 ≠ some .active) :
    ∀ r, db.reservations order = some r → r.status ≠ .active := by
  intro r hr hs
  exact h (by simp [standing, hr, hs])

theorem standing_release (db : Db) (order other : OrderId) (reason : ReleaseReason) :
    standing (release db order reason).1 order =
        (if (standing db order).1 = some .active then (some reason.target, true)
        else standing db order) ∧
      (other ≠ order → standing (release db order reason).1 other = standing db other) := by
  by_cases h : (standing db order).1 = some .active
  · obtain ⟨r, hr, hs⟩ := Option.map_eq_some_iff.mp h
    obtain ⟨-, hledger, -⟩ := release_of_active reason hr hs
    obtain ⟨hown, hother⟩ := standing_written other hledger
    rw [if_pos h, hown]
    exact ⟨by simp [InventoryEvent.releases], fun ho => hother ho (by
      simpa [InventoryEvent.releases] using ho.symm)⟩
  · rw [if_neg h, release_of_not_active (not_active_of_standing h)]
    exact ⟨rfl, fun _ => rfl⟩

theorem standing_commit (db : Db) (order other : OrderId) :
    standing (commit db order).1 order =
        (if (standing db order).1 = some .active then (some .consumed, (standing db order).2)
        else standing db order) ∧
      (other ≠ order → standing (commit db order).1 other = standing db other) := by
  by_cases h : (standing db order).1 = some .active
  · obtain ⟨r, hr, hs⟩ := Option.map_eq_some_iff.mp h
    obtain ⟨-, hledger, -⟩ := commit_of_active hr hs
    obtain ⟨hown, hother⟩ := standing_written other hledger
    rw [if_pos h, hown]
    exact ⟨by simp [InventoryEvent.releases], fun ho => hother ho rfl⟩
  · rw [if_neg h, commit_of_not_active (not_active_of_standing h)]
    exact ⟨rfl, fun _ => rfl⟩

end

/-! ### The counters -/

/-- The slots in use. -/
def slotsInUse (db : Db) (restaurant : RestaurantId) : ℕ :=
  match db.loads restaurant with
  | none => 0
  | some load => load.active

/-- The order holds a slot of the kitchen. -/
def HoldsSlot (db : Db) (order : OrderId) (restaurant : RestaurantId) : Prop :=
  ∃ r, db.reservations order = some r ∧ r.status = .active ∧ r.restaurantId = restaurant

/-- Every kitchen's slots in use are those that the active reservations hold. -/
def Counted (db : Db) : Prop :=
  ∀ restaurant, ∃ holders : Finset OrderId,
    (∀ order, order ∈ holders ↔ HoldsSlot db order restaurant) ∧
      slotsInUse db restaurant = holders.card

section

variable {cfg : Config} {db db' : Db} {order : OrderId} {restaurant : RestaurantId}
  {r : Reservation}

theorem slotsInUse_congr (h : db'.loads = db.loads) : slotsInUse db' = slotsInUse db := by
  funext restaurant
  simp [slotsInUse, h]

theorem holdsSlot_congr (h : db'.reservations = db.reservations) {o : OrderId} :
    HoldsSlot db' o restaurant ↔ HoldsSlot db o restaurant := by
  simp [HoldsSlot, h]

theorem Counted.congr (hc : Counted db) (hres : db'.reservations = db.reservations)
    (hslots : slotsInUse db' = slotsInUse db) : Counted db' := by
  intro restaurant
  obtain ⟨holders, hmem, hcard⟩ := hc restaurant
  exact ⟨holders, fun o => (hmem o).trans (holdsSlot_congr hres).symm, by rw [hslots, hcard]⟩

/-- A new load row counts nothing, as did no row. -/
theorem slotsInUse_ensureLoadRow (db : Db) (restaurant : RestaurantId) (capacity : ℕ) :
    slotsInUse (db.ensureLoadRow restaurant capacity) = slotsInUse db := by
  funext other
  unfold Db.ensureLoadRow
  cases hload : db.loads restaurant with
  | some load => rfl
  | none =>
    by_cases ho : other = restaurant
    · subst ho
      simp [slotsInUse, Db.setLoad, hload]
    · simp [slotsInUse, Db.setLoad, Function.update_of_ne ho]

theorem slotsInUse_setCapacity (db : Db) (restaurant : RestaurantId) (capacity : ℕ) :
    slotsInUse (setCapacity db restaurant capacity) = slotsInUse db := by
  funext other
  unfold setCapacity
  by_cases ho : other = restaurant
  · subst ho
    cases hload : db.loads other <;> simp [slotsInUse, Db.setLoad, hload]
  · cases hload : db.loads restaurant <;>
      simp [slotsInUse, Db.setLoad, Function.update_of_ne ho]

theorem Counted.reserve {lines : List ReservationLine} {ttl : Option ℕ} {now : ℕ} {created : Bool}
    (hc : Counted db)
    (h : reserve cfg db order restaurant lines ttl now = .ok (db', created)) : Counted db' := by
  rcases reserve_ok h with ⟨rfl, -⟩ | ⟨-, hnone, hledger, load, hloads, hload⟩
  · exact hc
  · have hres : db'.reservations = _ := congrArg Prod.fst hledger
    have hused := slotsInUse_ensureLoadRow db restaurant cfg.defaultCapacity
    intro other
    obtain ⟨holders, hmem, hcard⟩ := hc other
    by_cases ho : other = restaurant
    · subst ho
      have hfree : order ∉ holders := by
        rw [hmem]
        rintro ⟨q, hq, -⟩
        rw [hnone] at hq
        cases hq
      refine ⟨insert order holders, fun o => ?_, ?_⟩
      · rw [Finset.mem_insert, hmem, HoldsSlot, HoldsSlot, hres]
        by_cases hoo : o = order
        · subst hoo
          simp
        · simp [hoo]
      · rw [Finset.card_insert_of_notMem hfree, ← hcard, ← hused]
        simp [slotsInUse, hloads, hload]
    · refine ⟨holders, fun o => ?_, ?_⟩
      · rw [hmem, HoldsSlot, HoldsSlot, hres]
        by_cases hoo : o = order
        · subst hoo
          have hne : restaurant ≠ other := fun he => ho he.symm
          simp [hnone, hne]
        · simp [Function.update_of_ne hoo]
      · rw [← hcard, ← hused]
        simp [slotsInUse, hloads, Function.update_of_ne ho]

/-- A reservation that finishes gives its slot back: the guard `active > 0` holds. -/
theorem Counted.finish {target : ReservationStatus} {event : InventoryEvent} (hc : Counted db)
    (hr : db.reservations order = some r) (hs : r.status = .active) (ht : target ≠ .active)
    (hledger : db'.ledger = (Function.update db.reservations order
      (some { r with status := target }), db.outbox ++ [event]))
    (hloads : db'.loads = (db.freeSlot r.restaurantId).loads) : Counted db' := by
  have hres : db'.reservations = _ := congrArg Prod.fst hledger
  intro other
  obtain ⟨holders, hmem, hcard⟩ := hc other
  refine ⟨holders.erase order, fun o => ?_, ?_⟩
  · rw [Finset.mem_erase, hmem, HoldsSlot, HoldsSlot, hres]
    by_cases hoo : o = order
    · subst hoo
      simp [ht]
    · simp [hoo]
  · by_cases ho : other = r.restaurantId
    · have hin : order ∈ holders := (hmem order).mpr ⟨r, hr, hs, ho.symm⟩
      rw [Finset.card_erase_of_mem hin, ← hcard, slotsInUse, hloads, Db.freeSlot, slotsInUse, ho]
      cases hload : db.loads r.restaurantId with
      | none => simp [hload]
      | some load =>
        by_cases hpos : 0 < load.active
        · simp [hpos, Db.setLoad]
        · have hzero : load.active = 0 := by omega
          simp [hload, hzero]
    · have hout : order ∉ holders := by
        rw [hmem]
        rintro ⟨q, hq, -, hqr⟩
        rw [hr] at hq
        cases hq
        exact ho hqr.symm
      rw [Finset.erase_eq_of_notMem hout, ← hcard, slotsInUse, hloads, Db.freeSlot, slotsInUse]
      cases hload : db.loads r.restaurantId with
      | none => rfl
      | some load =>
        by_cases hpos : 0 < load.active
        · simp [hpos, Db.setLoad, Function.update_of_ne ho]
        · simp [hpos]

theorem Counted.release {reason : ReleaseReason} (hc : Counted db) :
    Counted (release db order reason).1 := by
  by_cases h : ∃ r, db.reservations order = some r ∧ r.status = .active
  · obtain ⟨r, hr, hs⟩ := h
    obtain ⟨-, hledger, hloads⟩ := release_of_active reason hr hs
    exact hc.finish hr hs (by cases reason <;> decide) hledger hloads
  · rw [release_of_not_active fun r hr hs => h ⟨r, hr, hs⟩]
    exact hc

theorem Counted.commit (hc : Counted db) : Counted (commit db order).1 := by
  by_cases h : ∃ r, db.reservations order = some r ∧ r.status = .active
  · obtain ⟨r, hr, hs⟩ := h
    obtain ⟨-, hledger, hloads⟩ := commit_of_active hr hs
    exact hc.finish hr hs (by decide) hledger hloads
  · rw [commit_of_not_active fun r hr hs => h ⟨r, hr, hs⟩]
    exact hc

theorem Counted.setStock {item : ItemId} {available : ℕ} (hc : Counted db) :
    Counted (setStock db restaurant item available) :=
  hc.congr rfl rfl

theorem Counted.setCapacity {capacity : ℕ} (hc : Counted db) :
    Counted (setCapacity db restaurant capacity) :=
  hc.congr (congrArg Prod.fst (setCapacity_ledger db restaurant capacity))
    (slotsInUse_setCapacity db restaurant capacity)

theorem Counted.provision {items : List ItemId} (hc : Counted db) :
    Counted (provision cfg db restaurant items) := by
  refine hc.congr (congrArg Prod.fst (provision_ledger cfg db restaurant items)) ?_
  rw [Inventory.provision, slotsInUse_ensureLoadRow]
  exact slotsInUse_congr (insertAll_ledger db restaurant items).2

theorem counted_empty : Counted .empty := by
  intro restaurant
  exact ⟨∅, fun o => by simp [HoldsSlot, Db.empty], rfl⟩

end

end Inventory
