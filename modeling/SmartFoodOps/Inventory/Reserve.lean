/-
A reservation is all or nothing.

The pre-check looks at one line at a time and the decrements add up, so an order that names an item
on two lines is refused by the second decrement, in the middle.

* `demand` — what the lines want of an item, all together;
* `Db.take` — the sums are taken from stock at once;
* `decrementAll_eq_some` — the decrements one after the other come to that, or fail;
* `Reservable` — what it takes for a reservation to be made;
* `reserve_spec` — a reservation is made exactly then, and an error leaves nothing behind.
-/
import SmartFoodOps.Inventory.Service
import Mathlib.Algebra.GroupWithZero.Nat

open Dispatch (OrderId)

namespace Inventory

/-! ### Demand -/

/-- The quantities of the lines of an item, added up. -/
def demand (lines : List ReservationLine) (item : ItemId) : ℕ :=
  ((lines.filter fun line => line.itemId = item).map ReservationLine.qty).sum

/-- What there is of an item; a row that is not there holds nothing. -/
def Db.available (db : Db) (restaurant : RestaurantId) (item : ItemId) : ℕ :=
  (db.stock restaurant item).getD 0

/-- The sums of the lines are gone from a restaurant's stock. -/
def Db.take (db : Db) (restaurant : RestaurantId) (lines : List ReservationLine) : Db :=
  { db with stock := Function.update db.stock restaurant fun item =>
              (db.stock restaurant item).map (· - demand lines item) }

variable {cfg : Config} {db db' : Db} {order : OrderId} {restaurant : RestaurantId}
  {lines : List ReservationLine} {ttl : Option ℕ} {now : ℕ}

theorem demand_cons (line : ReservationLine) (rest : List ReservationLine) (item : ItemId) :
    demand (line :: rest) item = (if line.itemId = item then line.qty else 0) + demand rest item := by
  unfold demand
  rw [List.filter_cons]
  by_cases h : line.itemId = item
  · rw [if_pos (decide_eq_true h), if_pos h, List.map_cons, List.sum_cons]
  · rw [if_neg (by simpa using h), if_neg h, Nat.zero_add]

theorem qty_le_demand {line : ReservationLine} (h : line ∈ lines) :
    line.qty ≤ demand lines line.itemId := by
  induction lines with
  | nil => cases h
  | cons first rest ih =>
    rw [demand_cons]
    rcases List.mem_cons.mp h with rfl | h
    · rw [if_pos rfl]
      exact Nat.le_add_right _ _
    · exact (ih h).trans (Nat.le_add_left _ _)

theorem take_nil : db.take restaurant [] = db := by
  have hstock : (fun item => (db.stock restaurant item).map (· - demand [] item)) =
      db.stock restaurant := by
    funext item
    rcases db.stock restaurant item with _ | n
    · rfl
    · rfl
  unfold Db.take
  rw [hstock, Function.update_eq_self]

/-- One guarded decrement. -/
theorem decrementStock_eq_some {line : ReservationLine} (hqty : 1 ≤ line.qty) :
    db.decrementStock restaurant line = some db' ↔
      line.qty ≤ db.available restaurant line.itemId ∧ db' = db.take restaurant [line] := by
  unfold Db.decrementStock Db.available
  rcases hrow : db.stock restaurant line.itemId with _ | n
  · constructor
    · intro h
      cases h
    · rintro ⟨hle, -⟩
      exact absurd (hqty.trans hle) (by decide)
  · have htake : db.setStockRow restaurant line.itemId (n - line.qty) = db.take restaurant [line] := by
      have hrows : Function.update (db.stock restaurant) line.itemId (some (n - line.qty)) =
          fun item => (db.stock restaurant item).map (· - demand [line] item) := by
        funext item
        rw [demand_cons]
        by_cases hitem : line.itemId = item
        · subst hitem
          rw [Function.update_self, hrow, if_pos rfl]
          rfl
        · rw [Function.update_of_ne (Ne.symm hitem), if_neg hitem]
          rcases db.stock restaurant item with _ | m
          · rfl
          · rfl
      unfold Db.setStockRow Db.take
      rw [hrows]
    dsimp only
    rw [Option.getD_some, ← htake]
    split
    · next hle =>
      rw [Option.some.injEq, eq_comm]
      exact (and_iff_right hle).symm
    · next hle =>
      constructor
      · intro h
        cases h
      · rintro ⟨h, -⟩
        exact absurd h hle

theorem take_take (line : ReservationLine) (rest : List ReservationLine) :
    (db.take restaurant [line]).take restaurant rest = db.take restaurant (line :: rest) := by
  have hrows : (fun item => ((db.take restaurant [line]).stock restaurant item).map
        (· - demand rest item)) =
      fun item => (db.stock restaurant item).map (· - demand (line :: rest) item) := by
    funext item
    unfold Db.take
    dsimp only
    rw [Function.update_self, Option.map_map, demand_cons line rest, demand_cons line []]
    congr 1
    funext n
    show n - _ - _ = _
    rw [Nat.sub_sub, Nat.add_assoc]
    congr 2
    exact Nat.zero_add _
  show Db.mk _ _ _ _ = Db.mk _ _ _ _
  rw [hrows]
  congr 1
  exact Function.update_idem ..

theorem available_take (item : ItemId) : (db.take restaurant lines).available restaurant item =
    db.available restaurant item - demand lines item := by
  unfold Db.available Db.take
  dsimp only
  rw [Function.update_self]
  rcases db.stock restaurant item with _ | n
  · exact (Nat.zero_sub _).symm
  · rfl

/-- **The decrements of all lines** succeed exactly if the sums are there, and take the sums.  The
induction is over the lines; the stock is what the lines before have left. -/
theorem decrementAll_eq_some (hqty : ∀ line ∈ lines, 1 ≤ line.qty) :
    decrementAll restaurant db lines = some db' ↔
      (∀ item, demand lines item ≤ db.available restaurant item) ∧
        db' = db.take restaurant lines := by
  induction lines generalizing db with
  | nil =>
    rw [take_nil, decrementAll, Option.some.injEq, eq_comm]
    exact (and_iff_right fun _ => Nat.zero_le _).symm
  | cons line rest ih =>
    have hrest := fun l hl => hqty l (List.mem_cons_of_mem _ hl)
    rw [decrementAll, Option.bind_eq_some_iff]
    constructor
    · rintro ⟨mid, hmid, h⟩
      obtain ⟨hle, rfl⟩ := (decrementStock_eq_some (hqty line List.mem_cons_self)).mp hmid
      obtain ⟨hall, rfl⟩ := (ih hrest).mp h
      refine ⟨fun item => ?_, take_take line rest⟩
      have hitem := hall item
      rw [available_take, demand_cons] at hitem
      rw [demand_cons]
      by_cases h : line.itemId = item
      · subst h
        rw [if_pos rfl] at hitem ⊢
        have hnil : demand [] line.itemId = 0 := rfl
        omega
      · rw [if_neg h] at hitem ⊢
        have hnil : demand [] item = 0 := rfl
        omega
    · rintro ⟨hall, rfl⟩
      have hle : line.qty ≤ db.available restaurant line.itemId :=
        (qty_le_demand List.mem_cons_self).trans (hall line.itemId)
      refine ⟨_, (decrementStock_eq_some (hqty line List.mem_cons_self)).mpr ⟨hle, rfl⟩,
        (ih hrest).mpr ⟨fun item => ?_, (take_take line rest).symm⟩⟩
      have hitem := hall item
      have hnil : demand [] item = 0 := rfl
      rw [demand_cons] at hitem
      rw [available_take, demand_cons]
      omega

/-! ### A reservation -/

/-- The kitchen's slots; those of a kitchen that was never seen are the default. -/
def Db.load (db : Db) (cfg : Config) (restaurant : RestaurantId) : Load :=
  (db.loads restaurant).getD ⟨0, cfg.defaultCapacity⟩

/-- What it takes for a reservation to be made. -/
structure Reservable (cfg : Config) (db : Db) (order : OrderId) (restaurant : RestaurantId)
    (lines : List ReservationLine) : Prop where
  fresh : db.reservations order = none
  room : (db.load cfg restaurant).active < (db.load cfg restaurant).capacity
  stock : ∀ item, demand lines item ≤ db.available restaurant item

/-- The row of a new reservation. -/
def newReservation (cfg : Config) (restaurant : RestaurantId) (lines : List ReservationLine)
    (ttl : Option ℕ) (now : ℕ) : Reservation :=
  ⟨restaurant, lines, .active, now + cfg.ttl ttl⟩

/-- The tables with the sums gone, a slot taken and the lines recorded. -/
def Db.reserved (cfg : Config) (db : Db) (order : OrderId) (restaurant : RestaurantId)
    (lines : List ReservationLine) (ttl : Option ℕ) (now : ℕ) : Db where
  stock := (db.take restaurant lines).stock
  loads := Function.update db.loads restaurant
    (some { db.load cfg restaurant with active := (db.load cfg restaurant).active + 1 })
  reservations := Function.update db.reservations order
    (some (newReservation cfg restaurant lines ttl now))
  outbox := db.outbox ++ [.stockReserved order restaurant lines]

/-- The reservation that `reserve` returns, and whether it was created. -/
def reserveAnswer (cfg : Config) (db : Db) (order : OrderId) (restaurant : RestaurantId)
    (lines : List ReservationLine) (ttl : Option ℕ) (now : ℕ) :
    Except ReserveError (Reservation × Bool) :=
  match db.reservations order with
  | some existing => .ok (existing, false)
  | none => (reserve cfg db order restaurant lines ttl now).map fun result =>
      (newReservation cfg restaurant lines ttl now, result.2)

/-- What is committed: an exception rolls the transaction back. -/
def committed (db : Db) : Except ReserveError (Db × Bool) → Db
  | .ok (db', _) => db'
  | .error _ => db

theorem load_ensureLoadRow : (db.ensureLoadRow restaurant cfg.defaultCapacity).loads restaurant =
    some (db.load cfg restaurant) := by
  unfold Db.ensureLoadRow Db.load
  rcases h : db.loads restaurant with _ | load
  · exact Function.update_self ..
  · exact h

/-- The load of a kitchen with one more slot in use. -/
def Db.occupied (db : Db) (cfg : Config) (restaurant : RestaurantId) : Db :=
  db.setLoad restaurant
    { db.load cfg restaurant with active := (db.load cfg restaurant).active + 1 }

/-- The slot is taken before the stock is known. -/
theorem occupySlot_eq : (db.ensureLoadRow restaurant cfg.defaultCapacity).occupySlot restaurant =
    if (db.load cfg restaurant).active < (db.load cfg restaurant).capacity then
      some (db.occupied cfg restaurant)
    else none := by
  have hload : (db.ensureLoadRow restaurant cfg.defaultCapacity).loads restaurant =
      some (db.load cfg restaurant) := load_ensureLoadRow
  unfold Db.occupySlot
  rw [hload]
  dsimp only
  split
  · unfold Db.occupied Db.setLoad Db.ensureLoadRow
    rcases h : db.loads restaurant with _ | load
    · show some (Db.mk _ _ _ _) = some (Db.mk _ _ _ _)
      congr 2
      exact Function.update_idem ..
    · rfl
  · rfl

/-- A line that the pre-check reports asks for more than there is. -/
theorem not_short (h : ∀ item, demand lines item ≤ db.available restaurant item) :
    ¬ short db restaurant lines := by
  rintro ⟨line, hline, hshort⟩
  have hdemand := qty_le_demand hline
  have hitem := h line.itemId
  unfold Db.available at hitem
  omega

/-- **Reserve, in one step.** -/
theorem reserve_eq_created (hqty : ∀ line ∈ lines, 1 ≤ line.qty) :
    reserve cfg db order restaurant lines ttl now = .ok (db', true) ↔
      Reservable cfg db order restaurant lines ∧
        db' = db.reserved cfg order restaurant lines ttl now := by
  unfold reserve
  rcases hfresh : db.reservations order with _ | r
  · dsimp only
    rw [occupySlot_eq]
    split
    · next hocc =>
      -- the kitchen is full
      have hfull : ¬ (db.load cfg restaurant).active < (db.load cfg restaurant).capacity := by
        intro hroom
        rw [if_pos hroom] at hocc
        cases hocc
      constructor
      · intro h
        cases h
      · rintro ⟨h, -⟩
        exact absurd h.room hfull
    · next occupied hocc =>
      rw [Option.ite_none_right_eq_some, Option.some.injEq] at hocc
      obtain ⟨hroom, rfl⟩ := hocc
      split
      · next hshort =>
        constructor
        · intro h
          cases h
        · rintro ⟨h, -⟩
          exact absurd hshort (not_short h.stock)
      · split
        · next hnone =>
          constructor
          · intro h
            cases h
          · rintro ⟨h, -⟩
            have hsome : decrementAll restaurant (db.occupied cfg restaurant) lines =
                some ((db.occupied cfg restaurant).take restaurant lines) :=
              (decrementAll_eq_some hqty).mpr ⟨h.stock, rfl⟩
            rw [hnone] at hsome
            cases hsome
        · next taken htaken =>
          obtain ⟨hstock, rfl⟩ := (decrementAll_eq_some hqty).mp htaken
          rw [Except.ok.injEq, Prod.mk.injEq, and_iff_left rfl, eq_comm]
          exact (and_iff_right ⟨hfresh, hroom, hstock⟩).symm
  · constructor
    · intro h
      injections
    · rintro ⟨h, -⟩
      rw [h.fresh] at hfresh
      cases hfresh

/-- All or nothing. -/
structure AllOrNothing (cfg : Config) (db : Db) (order : OrderId) (restaurant : RestaurantId)
    (lines : List ReservationLine) (ttl : Option ℕ) (now : ℕ) : Prop where
  created_iff : (∃ db', reserve cfg db order restaurant lines ttl now = .ok (db', true)) ↔
    Reservable cfg db order restaurant lines
  created : Reservable cfg db order restaurant lines →
    committed db (reserve cfg db order restaurant lines ttl now) =
        db.reserved cfg order restaurant lines ttl now ∧
      reserveAnswer cfg db order restaurant lines ttl now =
        .ok (newReservation cfg restaurant lines ttl now, true)
  refused : ∀ e, reserve cfg db order restaurant lines ttl now = .error e →
    committed db (reserve cfg db order restaurant lines ttl now) = db
  replayed : ∀ r, db.reservations order = some r →
    committed db (reserve cfg db order restaurant lines ttl now) = db ∧
      reserveAnswer cfg db order restaurant lines ttl now = .ok (r, false)

/-- **A reservation is made exactly if there is a slot and the sums are in stock.**  It takes the
sums and a slot; what is refused, or was there, leaves the tables as they were. -/
theorem reserve_all_or_nothing (cfg : Config) (db : Db) (order : OrderId)
    (restaurant : RestaurantId) {lines : List ReservationLine} (ttl : Option ℕ) (now : ℕ)
    (hqty : ∀ line ∈ lines, 1 ≤ line.qty) :
    AllOrNothing cfg db order restaurant lines ttl now := by
  constructor
  · constructor
    · rintro ⟨db', h⟩
      exact ((reserve_eq_created hqty).mp h).1
    · intro h
      exact ⟨_, (reserve_eq_created hqty).mpr ⟨h, rfl⟩⟩
  · intro h
    have hreserve : reserve cfg db order restaurant lines ttl now =
        .ok (db.reserved cfg order restaurant lines ttl now, true) :=
      (reserve_eq_created hqty).mpr ⟨h, rfl⟩
    refine ⟨by rw [hreserve]; rfl, ?_⟩
    unfold reserveAnswer
    rw [h.fresh, hreserve]
    rfl
  · intro e he
    rw [he]
    rfl
  · intro r hr
    have hreserve : reserve cfg db order restaurant lines ttl now = .ok (db, false) := by
      unfold reserve
      rw [hr]
    refine ⟨by rw [hreserve]; rfl, ?_⟩
    unfold reserveAnswer
    rw [hr]

/-! ### Twice the same dish -/

/-- Three in stock, at a kitchen that was never seen. -/
def threeLeft : Db := { Db.empty with stock := fun _ _ => some 3 }

/-- Two lines of two are refused by the second one. -/
theorem reserve_twice : AllOrNothing {} threeLeft "o" "r" [⟨"a", 2⟩, ⟨"a", 2⟩] none 0 ∧
    ¬ Reservable {} threeLeft "o" "r" [⟨"a", 2⟩, ⟨"a", 2⟩] := by
  refine ⟨reserve_all_or_nothing {} threeLeft "o" "r" none 0 (by decide), fun h => ?_⟩
  have hitem := h.stock "a"
  exact absurd hitem (by decide)

end Inventory
