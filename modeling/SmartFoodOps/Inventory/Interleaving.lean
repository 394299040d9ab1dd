/-
Inventory transactions, interleaved statement by statement.

An operation in progress is the statement it executes next, with the values the code
holds at that point (`Op`).  Statements read committed data and their own transaction's
writes, wait for rows that another transaction has written, and are rolled back when
the operation raises.  A transaction can be aborted anywhere: a lost connection, a
deadlock, a process that dies.

* `opStep`, `step` — one statement of one operation, of any number of them;
* `seen_of_reserving` — a `reserve` shows nothing before its commit;
* `Ending` — how a reservation ends; `expire_overdue` ends one after the other, each in
  a transaction of its own;
* `step_cases` — what a step can do: start, run, select, abort.

The amounts of `stock` are integers here: that they stay natural is for the guards of
the statements to see to.
-/
import SmartFoodOps.Lib.Machine
import SmartFoodOps.Lib.Transaction
import SmartFoodOps.Inventory.Service
import Mathlib.Algebra.Ring.Int.Defs

open Machine Transaction
open Dispatch (OrderId)

namespace Inventory

namespace Interleaving

/-! ### Operations -/

/-- A call of `reserve`, with the `expires_at` that it computes first. -/
structure Request where
  order : OrderId
  restaurant : RestaurantId
  lines : List ReservationLine
  expiresAt : ℕ
  deriving DecidableEq, Repr

/-- The row that `reserve` inserts. -/
def Request.row (q : Request) : Reservation := ⟨q.restaurant, q.lines, .active, q.expiresAt⟩

/-- How a reservation leaves `active`. -/
inductive Ending
  | release (reason : ReleaseReason)
  | consume
  deriving DecidableEq, Repr

def Ending.status : Ending → ReservationStatus
  | release reason => reason.target
  | consume => .consumed

/-- Whether the quantities go back to stock. -/
def Ending.restores : Ending → Bool
  | release _ => true
  | consume => false

def Ending.event (order : OrderId) (r : Reservation) : Ending → InventoryEvent
  | release reason => .reservationReleased order r.restaurantId r.lines reason.target reason
  | consume => .reservationConsumed order r.restaurantId r.lines

/-- An operation between two statements; `rest` is what a reaper pass still has to do. -/
inductive Op
  | idle
  -- reserve
  | getReservation (q : Request)
  | getLoad (q : Request)
  | insertLoad (q : Request)
  | occupySlot (q : Request)
  | preCheck (q : Request)
  | decrement (q : Request) (taken todo : List ReservationLine)
  | insertReservation (q : Request)
  | commitReserve (q : Request)
  -- release and commit
  | finish (order : OrderId) (e : Ending) (rest : List OrderId)
  | increment (order : OrderId) (r : Reservation) (e : Ending) (restored todo : List ReservationLine)
      (rest : List OrderId)
  | freeSlot (order : OrderId) (r : Reservation) (e : Ending) (rest : List OrderId)
  | commitFinish (order : OrderId) (r : Reservation) (e : Ending) (rest : List OrderId)
  -- expire_overdue
  | selectOverdue
  -- set_capacity
  | updateCapacity (restaurant : RestaurantId) (capacity : ℕ)
  | insertCapacity (restaurant : RestaurantId) (capacity : ℕ)
  | updateCapacityAgain (restaurant : RestaurantId) (capacity : ℕ)
  | commitCapacity
  deriving DecidableEq, Repr

inductive Call
  | reserve (order : OrderId) (restaurant : RestaurantId) (lines : List ReservationLine)
      (ttl : Option ℕ) (now : ℕ)
  | release (order : OrderId) (reason : ReleaseReason)
  | commit (order : OrderId)
  | expireOverdue
  | setCapacity (restaurant : RestaurantId) (capacity : ℕ)
  deriving DecidableEq, Repr

/-- The first statement of an operation. -/
def Call.begin (cfg : Config) : Call → Op
  | reserve order restaurant lines ttl now =>
    .getReservation ⟨order, restaurant, lines, now + cfg.ttl ttl⟩
  | release order reason => .finish order (.release reason) []
  | commit order => .finish order .consume []
  | expireOverdue => .selectOverdue
  | setCapacity restaurant capacity => .updateCapacity restaurant capacity

/-- The next release of a reaper pass. -/
def expireNext : List OrderId → Op
  | [] => .idle
  | order :: rest => .finish order (.release .expired) rest

/-! ### Statements -/

/-- inventory_db; the events of a transaction become visible with its commit. -/
structure Tables where
  stock : Rows (RestaurantId × ItemId) ℤ ℕ
  loads : Rows RestaurantId Load ℕ
  reservations : Rows OrderId Reservation ℕ
  outbox : List InventoryEvent

namespace Tables

def commit (t : Tables) (pid : ℕ) (events : List InventoryEvent) : Tables :=
  ⟨t.stock.commit pid, t.loads.commit pid, t.reservations.commit pid, t.outbox ++ events⟩

def rollback (t : Tables) (pid : ℕ) : Tables :=
  ⟨t.stock.rollback pid, t.loads.rollback pid, t.reservations.rollback pid, t.outbox⟩

/-- The lines that the pre-check of `reserve` finds short. -/
def Short (t : Tables) (pid : ℕ) (q : Request) : Prop :=
  ∃ line ∈ q.lines, (t.stock.read pid (q.restaurant, line.itemId)).getD 0 < line.qty

instance (t : Tables) (pid : ℕ) (q : Request) : Decidable (t.Short pid q) :=
  inferInstanceAs (Decidable (∃ line ∈ q.lines, _))

/-- `occupy_slot`: `active < capacity`. -/
def occupied (load : Load) : Option Load :=
  if load.active < load.capacity then some { load with active := load.active + 1 } else none

/-- `free_slot`: `active > 0`. -/
def freed (load : Load) : Option Load :=
  if 0 < load.active then some { load with active := load.active - 1 } else none

/-- `decrement_stock`: `available >= qty`. -/
def taken (qty : ℕ) (available : ℤ) : Option ℤ :=
  if (qty : ℤ) ≤ available then some (available - qty) else none

/-- `finish_reservation`: `status = 'active'`. -/
def finished (e : Ending) (r : Reservation) : Option Reservation :=
  if r.status = .active then some { r with status := e.status } else none

end Tables

open Tables

/-- One statement of an operation; `none` is a statement that waits. -/
def opStep (cfg : Config) (pid : ℕ) (t : Tables) : Op → Option (Tables × Op)
  | .getReservation q =>
    match t.reservations.read pid q.order with
    | some _ => some (t, .idle)
    | none => some (t, .getLoad q)
  | .getLoad q =>
    match t.loads.read pid q.restaurant with
    | none => some (t, .insertLoad q)
    | some _ => some (t, .occupySlot q)
  | .insertLoad q =>
    (t.loads.insert pid q.restaurant ⟨0, cfg.defaultCapacity⟩).map fun (loads, _) =>
      ({ t with loads := loads }, .occupySlot q)
  | .occupySlot q =>
    (t.loads.update pid q.restaurant occupied).map fun (loads, ok) =>
      -- AtCapacity
      if ok then ({ t with loads := loads }, .preCheck q) else (t.rollback pid, .idle)
  | .preCheck q =>
    -- InsufficientStock
    if t.Short pid q then some (t.rollback pid, .idle) else some (t, .decrement q [] q.lines)
  | .decrement q _ [] => some (t, .insertReservation q)
  | .decrement q done (line :: todo) =>
    (t.stock.update pid (q.restaurant, line.itemId) (taken line.qty)).map fun (stock, ok) =>
      if ok then ({ t with stock := stock }, .decrement q (done ++ [line]) todo)
      else (t.rollback pid, .idle)
  | .insertReservation q =>
    (t.reservations.insert pid q.order q.row).map fun (reservations, ok) =>
      -- a conflict is an IntegrityError, which `reserve` lets through
      if ok then ({ t with reservations := reservations }, .commitReserve q)
      else (t.rollback pid, .idle)
  | .commitReserve q =>
    some (t.commit pid [.stockReserved q.order q.restaurant q.lines], .idle)
  | .finish order e rest =>
    (t.reservations.update pid order (finished e)).map fun (reservations, ok) =>
      match ok, t.reservations.read pid order with
      | true, some r =>
        ({ t with reservations := reservations },
          if e.restores then .increment order r e [] r.lines rest else .freeSlot order r e rest)
      | _, _ => (t.rollback pid, expireNext rest)
  | .increment order r e _ [] rest => some (t, .freeSlot order r e rest)
  | .increment order r e done (line :: todo) rest =>
    (t.stock.update pid (r.restaurantId, line.itemId) fun available =>
        some (available + line.qty)).map fun (stock, _) =>
      ({ t with stock := stock }, .increment order r e (done ++ [line]) todo rest)
  | .freeSlot order r e rest =>
    (t.loads.update pid r.restaurantId freed).map fun (loads, _) =>
      ({ t with loads := loads }, .commitFinish order r e rest)
  | .commitFinish order r e rest => some (t.commit pid [e.event order r], expireNext rest)
  | .updateCapacity restaurant capacity =>
    (t.loads.update pid restaurant fun load => some { load with capacity := capacity }).map
      fun (loads, ok) =>
        ({ t with loads := loads }, if ok then .commitCapacity else .insertCapacity restaurant capacity)
  | .insertCapacity restaurant capacity =>
    (t.loads.insert pid restaurant ⟨0, capacity⟩).map fun (loads, ok) =>
      ({ t with loads := loads },
        if ok then .commitCapacity else .updateCapacityAgain restaurant capacity)
  | .updateCapacityAgain restaurant capacity =>
    (t.loads.update pid restaurant fun load => some { load with capacity := capacity }).map
      fun (loads, _) => ({ t with loads := loads }, .commitCapacity)
  | .commitCapacity => some (t.commit pid [], .idle)
  | .idle | .selectOverdue => none

/-! ### A reservation that is refused -/

/-- The statements of `reserve` before its commit. -/
def Op.reserving : Op → Prop
  | .getReservation _ | .getLoad _ | .insertLoad _ | .occupySlot _ | .preCheck _ | .decrement _ _ _
  | .insertReservation _ => True
  | _ => False

/-- What the others see. -/
def Tables.seen (t : Tables) :=
  (t.stock.committed, t.loads.committed, t.reservations.committed, t.outbox)

/-- **Nobody sees what a `reserve` does before its commit**, and one that raises does not come to
that: it is rolled back. -/
theorem seen_of_reserving {cfg : Config} {pid : ℕ} {t t' : Tables} {op op' : Op}
    (hop : op.reserving) (h : opStep cfg pid t op = some (t', op')) : t'.seen = t.seen := by
  cases op with
  | getReservation q | getLoad q | preCheck q =>
    simp only [opStep] at h
    split at h <;> cases h <;> rfl
  | insertLoad q | insertReservation q =>
    obtain ⟨⟨rows, ok⟩, hi, heq⟩ := Option.map_eq_some_iff.mp h
    rcases Rows.insert_cases hi with ⟨rfl, rfl, -⟩ | ⟨rfl, -, -, rfl⟩ <;> cases heq <;> rfl
  | occupySlot q =>
    obtain ⟨⟨loads, ok⟩, hu, heq⟩ := Option.map_eq_some_iff.mp h
    rcases Rows.update_cases hu with ⟨rfl, rfl, -⟩ | ⟨rfl, -, _, _, -, -, rfl⟩ <;> cases heq <;> rfl
  | decrement q done todo =>
    cases todo with
    | nil =>
      cases h
      rfl
    | cons line todo =>
      obtain ⟨⟨stock, ok⟩, hu, heq⟩ := Option.map_eq_some_iff.mp h
      rcases Rows.update_cases hu with ⟨rfl, rfl, -⟩ | ⟨rfl, -, _, _, -, -, rfl⟩ <;> cases heq <;>
        rfl
  | _ => cases hop

/-! ### The system -/

structure System where
  tables : Tables
  ops : ℕ → Op

inductive Event
  | start (pid : ℕ) (call : Call)
  | run (pid : ℕ)
  /-- The SELECT of a reaper pass. -/
  | select (pid : ℕ) (now : ℕ) (orders : List OrderId)
  | abort (pid : ℕ)
  deriving DecidableEq, Repr

/-- `overdue_reservations`: active and past their time.  The statement takes the oldest;
any choice of at most `limit` is allowed here. -/
def Overdue (t : Tables) (now limit : ℕ) (orders : List OrderId) : Prop :=
  orders.length ≤ limit ∧ ∀ order ∈ orders,
    (t.reservations.committed order).any fun r => r.status = .active ∧ r.expiresAt < now

instance (t : Tables) (now limit : ℕ) (orders : List OrderId) :
    Decidable (Overdue t now limit orders) :=
  inferInstanceAs (Decidable (_ ∧ ∀ order ∈ orders, _))

/-- The default of `overdue_reservations`' limit. -/
def reaperLimit : ℕ := 100

def System.set (s : System) (pid : ℕ) (t : Tables) (op : Op) : System :=
  ⟨t, Function.update s.ops pid op⟩

def step (cfg : Config) (s : System) : Event → Option System
  | .start pid call => if s.ops pid = .idle then some (s.set pid s.tables (call.begin cfg)) else none
  | .run pid => (opStep cfg pid s.tables (s.ops pid)).map fun (t, op) => s.set pid t op
  | .select pid now orders =>
    if s.ops pid = .selectOverdue ∧ Overdue s.tables now reaperLimit orders then
      some (s.set pid s.tables (expireNext orders))
    else none
  | .abort pid => some (s.set pid (s.tables.rollback pid) .idle)

/-- What a step can do: start a call, run a statement, select overdue reservations, abort. -/
theorem step_cases {cfg : Config} {s u : System} {e : Event} (h : step cfg s e = some u) :
    (∃ pid call, e = .start pid call ∧ s.ops pid = .idle ∧
      u = s.set pid s.tables (call.begin cfg)) ∨
    (∃ pid t op, e = .run pid ∧ opStep cfg pid s.tables (s.ops pid) = some (t, op) ∧
      u = s.set pid t op) ∨
    (∃ pid now orders, e = .select pid now orders ∧ s.ops pid = .selectOverdue ∧
      Overdue s.tables now reaperLimit orders ∧ u = s.set pid s.tables (expireNext orders)) ∨
    ∃ pid, e = .abort pid ∧ u = s.set pid (s.tables.rollback pid) .idle := by
  cases e with
  | start pid call =>
    obtain ⟨hidle, rfl⟩ : s.ops pid = .idle ∧ s.set pid s.tables (call.begin cfg) = u := by
      simpa [step] using h
    exact .inl ⟨pid, call, rfl, hidle, rfl⟩
  | run pid =>
    obtain ⟨⟨t, op⟩, hx, rfl⟩ := Option.map_eq_some_iff.mp h
    exact .inr (.inl ⟨pid, t, op, rfl, hx, rfl⟩)
  | select pid now orders =>
    obtain ⟨⟨hop, hover⟩, rfl⟩ : (s.ops pid = .selectOverdue ∧
        Overdue s.tables now reaperLimit orders) ∧
        s.set pid s.tables (expireNext orders) = u := by
      simpa [step] using h
    exact .inr (.inr (.inl ⟨pid, now, orders, rfl, hop, hover, rfl⟩))
  | abort pid =>
    cases h
    exact .inr (.inr (.inr ⟨pid, rfl, rfl⟩))

/-- Stock and kitchens before the first reservation. -/
def System.stocked (initial : RestaurantId × ItemId → Option ℕ)
    (capacities : RestaurantId → Option ℕ) : System where
  tables :=
    { stock := ⟨fun k => (initial k).map (↑), fun _ => none⟩
      loads := ⟨fun r => (capacities r).map fun capacity => ⟨0, capacity⟩, fun _ => none⟩
      reservations := .empty
      outbox := [] }
  ops _ := .idle

end Interleaving

end Inventory
