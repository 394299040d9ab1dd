/-
Stock and kitchen slots are conserved.

A quantity is in stock, in an active reservation, or sold; a slot is in use exactly for
an active reservation.  An operation moves quantities in several statements, so between
them the tables balance only up to what the operations in progress have uncommitted.

* `held`, `slot` — what a reservation counts for;
* `Op.effect` — what an operation has uncommitted before its next statement;
* `Balanced` — the committed tables balance; a commit keeps this because the effects
  cancel out where operations commit (`effect_balances`);
* `conservation_of_run` — so they balance in every reachable state, and a reservation
  leaves `active` at most once.
-/
import SmartFoodOps.Inventory.Interleaving
import Mathlib.Algebra.BigOperators.Group.Finset.Basic
import Mathlib.Algebra.Order.BigOperators.Group.Finset

open Machine Transaction
open Dispatch (OrderId)

namespace Inventory

namespace Interleaving

/-! ### What a reservation counts for -/

/-- The quantity of an item over all lines. -/
def qtyOf (lines : List ReservationLine) (item : ItemId) : ℤ :=
  ((lines.filter fun line => line.itemId = item).map fun line => (line.qty : ℤ)).sum

/-- The quantity that a reservation keeps from stock: held, or sold. -/
def held (k : RestaurantId × ItemId) : Option Reservation → ℤ
  | some r =>
    if r.restaurantId = k.1 ∧ (r.status = .active ∨ r.status = .consumed) then qtyOf r.lines k.2
    else 0
  | none => 0

/-- The slots that a reservation is in. -/
def slot (restaurant : RestaurantId) : Option Reservation → ℤ
  | some r => if r.restaurantId = restaurant ∧ r.status = .active then 1 else 0
  | none => 0

def available (v : Option ℤ) : ℤ := v.getD 0

def active : Option Load → ℤ
  | some load => load.active
  | none => 0

/-- The committed tables balance: `orders` are the orders with a reservation. -/
structure Balanced (initial : RestaurantId × ItemId → Option ℕ) (t : Tables)
    (orders : Finset OrderId) : Prop where
  mem : ∀ o, o ∈ orders ↔ (t.reservations.committed o).isSome
  stock : ∀ k n, initial k = some n →
    available (t.stock.committed k) + ∑ o ∈ orders, held k (t.reservations.committed o) = n
  slots : ∀ r, active (t.loads.committed r) = ∑ o ∈ orders, slot r (t.reservations.committed o)

theorem qtyOf_append (lines lines' : List ReservationLine) (item : ItemId) :
    qtyOf (lines ++ lines') item = qtyOf lines item + qtyOf lines' item := by
  simp [qtyOf]

theorem qtyOf_singleton (line : ReservationLine) (item : ItemId) :
    qtyOf [line] item = if line.itemId = item then (line.qty : ℤ) else 0 := by
  by_cases h : line.itemId = item <;> simp [qtyOf, h]

/-! ### What an operation has uncommitted -/

structure Effect where
  stock : RestaurantId × ItemId → ℤ := fun _ => 0
  slots : RestaurantId → ℤ := fun _ => 0
  /-- The reservation that is written, as it was and as it will be. -/
  row : Option (OrderId × Option Reservation × Reservation) := none

/-- The quantities of `lines` at a restaurant. -/
def atRestaurant (restaurant : RestaurantId) (lines : List ReservationLine)
    (k : RestaurantId × ItemId) : ℤ :=
  if k.1 = restaurant then qtyOf lines k.2 else 0

/-- One slot of a restaurant. -/
def oneSlot (restaurant : RestaurantId) (r : RestaurantId) : ℤ := if r = restaurant then 1 else 0

def Ending.apply (e : Ending) (r : Reservation) : Reservation := { r with status := e.status }

/-- What has gone back to stock when an ending is through with its lines. -/
def Ending.restored (e : Ending) (r : Reservation) : List ReservationLine :=
  if e.restores then r.lines else []

def Op.effect : Op → Effect
  | preCheck q => { slots := oneSlot q.restaurant }
  | decrement q done _ =>
    { stock := fun k => -atRestaurant q.restaurant done k, slots := oneSlot q.restaurant }
  | insertReservation q =>
    { stock := fun k => -atRestaurant q.restaurant q.lines k, slots := oneSlot q.restaurant }
  | commitReserve q =>
    { stock := fun k => -atRestaurant q.restaurant q.lines k, slots := oneSlot q.restaurant,
      row := some (q.order, none, q.row) }
  | increment order r e done _ _ =>
    { stock := atRestaurant r.restaurantId done, row := some (order, some r, e.apply r) }
  | freeSlot order r e _ =>
    { stock := atRestaurant r.restaurantId (e.restored r), row := some (order, some r, e.apply r) }
  | commitFinish order r e _ =>
    { stock := atRestaurant r.restaurantId (e.restored r),
      slots := fun r' => -oneSlot r.restaurantId r', row := some (order, some r, e.apply r) }
  | _ => {}

/-- What the loops and the endings have established. -/
def Op.Sound : Op → Prop
  | decrement q done todo => q.lines = done ++ todo
  | increment _ r e done todo _ => r.status = .active ∧ e.restored r = done ++ todo
  | freeSlot _ r _ _ | commitFinish _ r _ _ => r.status = .active
  | _ => True

/-- The uncommitted writes of an operation are its effect. -/
structure Standing (initial : RestaurantId × ItemId → Option ℕ) (t : Tables) (pid : ℕ)
    (op : Op) : Prop where
  stock : ∀ k, (initial k).isSome → t.stock.change available pid k = op.effect.stock k
  slots : ∀ r, t.loads.change active pid r = op.effect.slots r
  row : ∀ o v, t.reservations.pending o = some (pid, v) ↔
    ∃ old new, op.effect.row = some (o, old, new) ∧ v = some new
  old : ∀ o old new, op.effect.row = some (o, old, new) → t.reservations.committed o = old
  sound : op.Sound

/-! ### Sums over the reservations -/

section

variable {S : Finset OrderId} {c c' : OrderId → Option Reservation} {o : OrderId}
  {new : Reservation} (w : Option Reservation → ℤ)

/-- A sum over the reservations after one of them was written. -/
theorem sum_written (hw : w none = 0) (hmem : ∀ o, o ∈ S ↔ (c o).isSome)
    (hc : c' = Function.update c o (some new)) :
    ∑ i ∈ insert o S, w (c' i) = ∑ i ∈ S, w (c i) + (w (some new) - w (c o)) := by
  subst hc
  have hupd : ∀ T : Finset OrderId, o ∉ T →
      ∑ i ∈ T, w (Function.update c o (some new) i) = ∑ i ∈ T, w (c i) := by
    intro T ho
    refine Finset.sum_congr rfl fun i hi => ?_
    have hne : i ≠ o := by
      rintro rfl
      exact ho hi
    rw [Function.update_of_ne hne]
  by_cases ho : o ∈ S
  · rw [Finset.insert_eq_of_mem ho, ← Finset.add_sum_erase S _ ho,
      ← Finset.add_sum_erase S (fun i => w (c i)) ho, hupd _ (Finset.notMem_erase o S),
      Function.update_self]
    omega
  · have hnone : c o = none := by
      by_contra h
      exact ho ((hmem o).mpr (Option.isSome_iff_ne_none.mpr h))
    rw [Finset.sum_insert ho, hupd S ho, Function.update_self, hnone, hw]
    omega

end

/-! ### Effects cancel out at the commits -/

theorem held_active {r : Reservation} (h : r.status = .active) (k : RestaurantId × ItemId) :
    held k (some r) = atRestaurant r.restaurantId r.lines k := by
  simp [held, atRestaurant, h, eq_comm]

theorem slot_active {r : Reservation} (h : r.status = .active) (r' : RestaurantId) :
    slot r' (some r) = oneSlot r.restaurantId r' := by
  simp [slot, oneSlot, h, eq_comm]

theorem Ending.status_ne (e : Ending) : e.status ≠ .active := by
  rcases e with (_ | _) | _ <;> decide

theorem slot_apply (e : Ending) (r : Reservation) (r' : RestaurantId) :
    slot r' (some (e.apply r)) = 0 := by
  simp [slot, Ending.apply, e.status_ne]

/-- What an ending restores it no longer holds. -/
theorem held_apply {e : Ending} {r : Reservation} (h : r.status = .active)
    (k : RestaurantId × ItemId) :
    atRestaurant r.restaurantId (e.restored r) k +
      (held k (some (e.apply r)) - held k (some r)) = 0 := by
  rw [held_active h]
  cases e with
  | release reason =>
    have hnot : held k (some (Ending.apply (.release reason) r)) = 0 := by
      cases reason <;> simp [held, Ending.apply, Ending.status, ReleaseReason.target]
    rw [hnot]
    show atRestaurant r.restaurantId r.lines k + _ = _
    omega
  | consume =>
    have hsold : held k (some (Ending.apply .consume r)) = atRestaurant r.restaurantId r.lines k := by
      simp [held, Ending.apply, Ending.status, atRestaurant, eq_comm]
    rw [hsold]
    simp [atRestaurant, Ending.restored, Ending.restores, qtyOf]

/-- The operation's next statement is its commit. -/
def Op.Commits : Op → Prop
  | commitReserve _ | commitFinish .. => True
  | _ => False

/-- **Where an operation commits, what it takes from stock and from the slots is what
its reservation counts for.** -/
theorem effect_balances {op : Op} (hc : op.Commits) (hs : op.Sound) :
    ∃ o old new, op.effect.row = some (o, old, new) ∧
      (∀ k, op.effect.stock k + (held k (some new) - held k old) = 0) ∧
      ∀ r, op.effect.slots r = slot r (some new) - slot r old := by
  cases op with
  | commitReserve q =>
    refine ⟨_, _, _, rfl, fun k => ?_, fun r => ?_⟩
    · rw [held_active rfl]
      show -atRestaurant q.restaurant q.lines k + (atRestaurant q.restaurant q.lines k - 0) = 0
      omega
    · rw [slot_active rfl]
      show oneSlot q.restaurant r = oneSlot q.restaurant r - 0
      omega
  | commitFinish order r e rest =>
    refine ⟨_, _, _, rfl, held_apply hs, fun r' => ?_⟩
    rw [slot_apply, slot_active hs]
    show -oneSlot r.restaurantId r' = 0 - oneSlot r.restaurantId r'
    omega
  | _ => exact hc.elim

/-! ### The committed tables -/

/-- The amount of an item that was stocked at first. -/
def GoodStock (initial : RestaurantId × ItemId → Option ℕ) (k : RestaurantId × ItemId)
    (v : Option ℤ) : Prop :=
  (v.isSome ↔ (initial k).isSome) ∧ ∀ a, v = some a → 0 ≤ a

/-- The order whose reservation an event takes out of `active`. -/
def leaves : InventoryEvent → Option OrderId
  | .reservationReleased order _ _ _ _ => some order
  | .reservationConsumed order _ _ => some order
  | _ => none

/-- The order's reservation has left `active`. -/
def Left (t : Tables) (o : OrderId) : Prop :=
  ∃ r, t.reservations.committed o = some r ∧ r.status ≠ .active

structure World (initial : RestaurantId × ItemId → Option ℕ) (t : Tables) : Prop where
  balanced : ∃ orders, Balanced initial t orders
  committed : ∀ k, GoodStock initial k (t.stock.committed k)
  pending : ∀ k pid v, t.stock.pending k = some (pid, v) → GoodStock initial k v
  once : (t.outbox.filterMap leaves).Nodup
  left : ∀ o, o ∈ t.outbox.filterMap leaves ↔ Left t o

section

variable {initial : RestaurantId × ItemId → Option ℕ} {t t' : Tables} {pid : ℕ} {op op' : Op}

theorem World.read (hw : World initial t) (pid : ℕ) (k : RestaurantId × ItemId) :
    GoodStock initial k (t.stock.read pid k) := by
  by_cases h : ∃ v, t.stock.pending k = some (pid, v)
  · obtain ⟨v, hv⟩ := h
    rw [Rows.read_of_pending hv]
    exact hw.pending k pid v hv
  · rw [Rows.read_of_not_pending fun v hv => h ⟨v, hv⟩]
    exact hw.committed k

/-- Uncommitted writes do not touch what is committed. -/
theorem World.uncommitted (hw : World initial t) (hs : t'.stock.committed = t.stock.committed)
    (hl : t'.loads.committed = t.loads.committed)
    (hr : t'.reservations.committed = t.reservations.committed) (ho : t'.outbox = t.outbox)
    (hp : ∀ k pid v, t'.stock.pending k = some (pid, v) → GoodStock initial k v) :
    World initial t' := by
  obtain ⟨orders, hmem, hstock, hslots⟩ := hw.balanced
  refine ⟨⟨orders, ?_, ?_, ?_⟩, ?_, hp, ?_, ?_⟩
  · rwa [hr]
  · rwa [hs, hr]
  · rwa [hl, hr]
  · rw [hs]
    exact hw.committed
  · rw [ho]
    exact hw.once
  · rw [ho]
    simp only [Left, hr]
    exact hw.left

theorem World.rollback (hw : World initial t) (pid : ℕ) : World initial (t.rollback pid) :=
  hw.uncommitted rfl rfl rfl rfl fun k u v hv =>
    hw.pending k u v (Rows.rollback_pending_iff.mp hv).2

/-! ### The other operations -/

/-- A step of `pid` leaves what the others have uncommitted. -/
structure Frame (t t' : Tables) (pid : ℕ) : Prop where
  stock : ∀ u, u ≠ pid → ∀ k, t'.stock.change available u k = t.stock.change available u k
  slots : ∀ u, u ≠ pid → ∀ r, t'.loads.change active u r = t.loads.change active u r
  pending : ∀ u, u ≠ pid → ∀ o v,
    t'.reservations.pending o = some (u, v) ↔ t.reservations.pending o = some (u, v)
  committed : ∀ u, u ≠ pid → ∀ o v, t.reservations.pending o = some (u, v) →
    t'.reservations.committed o = t.reservations.committed o

theorem Standing.frame {u : ℕ} (h : Standing initial t u op) (hf : Frame t t' pid) (hu : u ≠ pid) :
    Standing initial t' u op := by
  refine ⟨fun k hk => ?_, fun r => ?_, fun o v => ?_, fun o old new hrow => ?_, h.sound⟩
  · rw [hf.stock u hu]
    exact h.stock k hk
  · rw [hf.slots u hu]
    exact h.slots r
  · rw [hf.pending u hu]
    exact h.row o v
  · rw [hf.committed u hu o (some new) ((h.row o (some new)).mpr ⟨old, new, hrow, rfl⟩)]
    exact h.old o old new hrow

theorem Frame.refl (t : Tables) (pid : ℕ) : Frame t t pid :=
  ⟨fun _ _ _ => rfl, fun _ _ _ => rfl, fun _ _ _ _ => Iff.rfl, fun _ _ _ _ _ => rfl⟩

theorem frame_stock {k : RestaurantId × ItemId} {v : Option ℤ} (hfree : t.stock.free pid k) :
    Frame t { t with stock := t.stock.write pid k v } pid :=
  ⟨fun _ hu _ => Rows.change_write_other hfree hu, fun _ _ _ => rfl, fun _ _ _ _ => Iff.rfl,
    fun _ _ _ _ _ => rfl⟩

theorem frame_loads {r : RestaurantId} {v : Option Load} (hfree : t.loads.free pid r) :
    Frame t { t with loads := t.loads.write pid r v } pid :=
  ⟨fun _ _ _ => rfl, fun _ hu _ => Rows.change_write_other hfree hu, fun _ _ _ _ => Iff.rfl,
    fun _ _ _ _ _ => rfl⟩

theorem frame_reservations {o : OrderId} {v : Option Reservation}
    (hfree : t.reservations.free pid o) :
    Frame t { t with reservations := t.reservations.write pid o v } pid :=
  ⟨fun _ _ _ => rfl, fun _ _ _ => rfl, fun _ hu _ _ => Rows.write_pending_other hfree hu,
    fun _ _ _ _ _ => rfl⟩

theorem frame_commit (events : List InventoryEvent) : Frame t (t.commit pid events) pid :=
  ⟨fun _ hu _ => Rows.change_commit_other hu, fun _ hu _ => Rows.change_commit_other hu,
    fun _ hu _ _ => Rows.commit_pending_iff.trans (and_iff_right hu),
    fun _ hu _ _ hv => Rows.commit_committed_other hu hv⟩

theorem frame_rollback : Frame t (t.rollback pid) pid :=
  ⟨fun _ hu _ => Rows.change_rollback_other hu, fun _ hu _ => Rows.change_rollback_other hu,
    fun _ hu _ _ => Rows.rollback_pending_iff.trans (and_iff_right hu), fun _ _ _ _ _ => rfl⟩

/-! ### The operation's own standing -/

/-- A statement that writes nothing, to an operation with the same effect. -/
theorem Standing.pass (h : Standing initial t pid op) (heff : op'.effect = op.effect)
    (hs : op'.Sound) : Standing initial t pid op' := by
  refine ⟨?_, ?_, ?_, ?_, hs⟩
  · rw [heff]
    exact h.stock
  · rw [heff]
    exact h.slots
  · rw [heff]
    exact h.row
  · rw [heff]
    exact h.old

/-- After a commit or a rollback nothing is uncommitted. -/
theorem standing_closed (hs : ∀ k, t.stock.change available pid k = 0)
    (hl : ∀ r, t.loads.change active pid r = 0)
    (hr : ∀ o v, t.reservations.pending o ≠ some (pid, v)) (heff : op.effect = {})
    (hsound : op.Sound) : Standing initial t pid op := by
  refine ⟨fun k _ => ?_, fun r => ?_, fun o v => ?_, fun o old new hrow => ?_, hsound⟩
  · rw [hs, heff]
  · rw [hl, heff]
  · rw [heff]
    exact ⟨fun h => absurd h (hr o v), nofun⟩
  · rw [heff] at hrow
    cases hrow

theorem standing_rollback (heff : op.effect = {}) (hsound : op.Sound) :
    Standing initial (t.rollback pid) pid op :=
  standing_closed (fun _ => Rows.change_rollback_self) (fun _ => Rows.change_rollback_self)
    (fun o v => Rows.idle_rollback o v) heff hsound

theorem standing_commit {events : List InventoryEvent} (heff : op.effect = {})
    (hsound : op.Sound) : Standing initial (t.commit pid events) pid op :=
  standing_closed (fun _ => Rows.change_commit_self) (fun _ => Rows.change_commit_self)
    (fun o v => Rows.idle_commit o v) heff hsound

theorem expireNext_effect (rest : List OrderId) :
    (expireNext rest).effect = {} ∧ (expireNext rest).Sound := by
  cases rest <;> exact ⟨rfl, trivial⟩

/-- A write on a load row. -/
theorem Standing.loads {r : RestaurantId} {v : Option Load} (h : Standing initial t pid op)
    (hstock : op'.effect.stock = op.effect.stock) (hrow : op'.effect.row = op.effect.row)
    (hslots : ∀ r', op'.effect.slots r' = op.effect.slots r' +
      if r' = r then active v - active (t.loads.read pid r) else 0)
    (hs : op'.Sound) :
    Standing initial { t with loads := t.loads.write pid r v } pid op' := by
  refine ⟨?_, fun r' => ?_, ?_, ?_, hs⟩
  · rw [hstock]
    exact h.stock
  · rw [hslots, ← h.slots]
    by_cases hr : r' = r
    · subst hr
      rw [if_pos rfl]
      exact Rows.change_write_self
    · rw [if_neg hr, add_zero]
      exact Rows.change_write_of_ne hr
  · rw [hrow]
    exact h.row
  · rw [hrow]
    exact h.old

/-- A write on a stock row. -/
theorem Standing.stocks {k : RestaurantId × ItemId} {v : Option ℤ} (h : Standing initial t pid op)
    (hslots : op'.effect.slots = op.effect.slots) (hrow : op'.effect.row = op.effect.row)
    (hstock : ∀ k', op'.effect.stock k' = op.effect.stock k' +
      if k' = k then available v - available (t.stock.read pid k) else 0)
    (hs : op'.Sound) :
    Standing initial { t with stock := t.stock.write pid k v } pid op' := by
  refine ⟨fun k' hk' => ?_, ?_, ?_, ?_, hs⟩
  · rw [hstock, ← h.stock k' hk']
    by_cases hk : k' = k
    · subst hk
      rw [if_pos rfl]
      exact Rows.change_write_self
    · rw [if_neg hk, add_zero]
      exact Rows.change_write_of_ne hk
  · rw [hslots]
    exact h.slots
  · rw [hrow]
    exact h.row
  · rw [hrow]
    exact h.old

/-- The write on the reservation. -/
theorem Standing.reservation {o : OrderId} {old : Option Reservation} {new : Reservation}
    (h : Standing initial t pid op) (hstock : op'.effect.stock = op.effect.stock)
    (hslots : op'.effect.slots = op.effect.slots) (hnone : op.effect.row = none)
    (hrow : op'.effect.row = some (o, old, new)) (hold : t.reservations.committed o = old)
    (hs : op'.Sound) :
    Standing initial { t with reservations := t.reservations.write pid o (some new) } pid op' := by
  refine ⟨?_, ?_, fun o' v => ?_, fun o' old' new' hrow' => ?_, hs⟩
  · rw [hstock]
    exact h.stock
  · rw [hslots]
    exact h.slots
  · rw [hrow]
    by_cases ho : o' = o
    · subst ho
      rw [Rows.write_pending_self]
      constructor
      · intro hv
        cases hv
        exact ⟨old, new, rfl, rfl⟩
      · rintro ⟨_, _, he, rfl⟩
        cases he
        rfl
    · rw [Rows.write_pending_of_ne ho, h.row, hnone]
      constructor
      · rintro ⟨_, _, he, -⟩
        cases he
      · rintro ⟨_, _, he, -⟩
        cases he
        exact absurd rfl ho
  · rw [hrow] at hrow'
    cases hrow'
    exact hold

/-! ### Commits -/

/-- A commit writes the operation's reservation, if it has one. -/
theorem Standing.committed_row {o : OrderId} {old : Option Reservation} {new : Reservation}
    (h : Standing initial t pid op) (hrow : op.effect.row = some (o, old, new)) :
    (t.reservations.commit pid).committed =
      Function.update t.reservations.committed o (some new) := by
  funext o'
  by_cases ho : o' = o
  · subst ho
    rw [Function.update_self]
    exact Rows.commit_committed_of_pending ((h.row o' (some new)).mpr ⟨old, new, hrow, rfl⟩)
  · rw [Function.update_of_ne ho]
    refine Rows.commit_committed_of_not_pending fun v hv => ho ?_
    obtain ⟨old', new', he, -⟩ := (h.row o' v).mp hv
    rw [hrow] at he
    cases he
    rfl

theorem Standing.not_pending (h : Standing initial t pid op) (hnone : op.effect.row = none)
    (o : OrderId) (v : Option Reservation) : t.reservations.pending o ≠ some (pid, v) := by
  intro hv
  obtain ⟨_, _, he, -⟩ := (h.row o v).mp hv
  rw [hnone] at he
  cases he

/-- An operation that has written no reservation yet reads the committed one. -/
theorem Standing.read_row (h : Standing initial t pid op) (hnone : op.effect.row = none)
    (o : OrderId) : t.reservations.read pid o = t.reservations.committed o :=
  Rows.read_of_not_pending (h.not_pending hnone o)

/-- The amounts stay good through a commit. -/
theorem World.good_commit (hw : World initial t) (pid : ℕ) (events : List InventoryEvent) :
    (∀ k, GoodStock initial k ((t.commit pid events).stock.committed k)) ∧
      ∀ k u v, (t.commit pid events).stock.pending k = some (u, v) → GoodStock initial k v :=
  ⟨fun k => hw.read pid k, fun k u v hv => hw.pending k u v (Rows.commit_pending_iff.mp hv).2⟩

/-- A commit that moves nothing: new capacities. -/
theorem World.commit_quiet (hw : World initial t) (h : Standing initial t pid op)
    (heff : op.effect = {}) : World initial (t.commit pid []) := by
  obtain ⟨orders, hmem, hstock, hslots⟩ := hw.balanced
  obtain ⟨hgood, hpend⟩ := hw.good_commit pid []
  have hres : (t.commit pid []).reservations.committed = t.reservations.committed := by
    funext o
    exact Rows.commit_committed_of_not_pending (h.not_pending (by rw [heff]) o)
  refine ⟨⟨orders, ?_, fun k n hk => ?_, fun r => ?_⟩, hgood, hpend, ?_, fun o => ?_⟩
  · rwa [hres]
  · have hzero : t.stock.change available pid k = 0 := by
      rw [h.stock k (by rw [hk]; rfl), heff]
    rw [hres]
    show available ((t.stock.commit pid).committed k) + _ = _
    rw [Rows.commit_committed_measure (m := available), hzero, add_zero]
    exact hstock k n hk
  · have hzero : t.loads.change active pid r = 0 := by
      rw [h.slots r, heff]
    rw [hres]
    show active ((t.loads.commit pid).committed r) = _
    rw [Rows.commit_committed_measure (m := active), hzero, add_zero]
    exact hslots r
  · show ((t.outbox ++ []).filterMap leaves).Nodup
    rw [List.append_nil]
    exact hw.once
  · show o ∈ (t.outbox ++ []).filterMap leaves ↔ _
    rw [List.append_nil, Left, hres]
    exact hw.left o

/-- The event that an operation commits with. -/
def Op.event : Op → List InventoryEvent
  | commitReserve q => [.stockReserved q.order q.restaurant q.lines]
  | commitFinish order r e _ => [e.event order r]
  | _ => []

/-- A reservation is written active, or leaves `active` with its event. -/
theorem event_leaves {op : Op} (hc : op.Commits) (hs : op.Sound) {o : OrderId}
    {old : Option Reservation} {new : Reservation} (hrow : op.effect.row = some (o, old, new)) :
    (old = none ∧ new.status = .active ∧ op.event.filterMap leaves = []) ∨
      (∃ r, old = some r ∧ r.status = .active ∧ new.status ≠ .active ∧
        op.event.filterMap leaves = [o]) := by
  cases op with
  | commitReserve q =>
    cases hrow
    exact .inl ⟨rfl, rfl, rfl⟩
  | commitFinish order r e rest =>
    cases hrow
    refine .inr ⟨r, rfl, hs, e.status_ne, ?_⟩
    cases e <;> rfl
  | _ => exact hc.elim

/-- What has left `active` stays as it is. -/
theorem Standing.left_kept (h : Standing initial t pid op) (hc : op.Commits) {o : OrderId}
    {r : Reservation} (hr : t.reservations.committed o = some r) (hst : r.status ≠ .active) :
    (t.commit pid op.event).reservations.committed o = some r := by
  obtain ⟨o', old, new, hrow, -, -⟩ := effect_balances hc h.sound
  show (t.reservations.commit pid).committed o = some r
  rw [h.committed_row hrow]
  have hne : o ≠ o' := by
    rintro rfl
    have hold := h.old o old new hrow
    rw [hr] at hold
    rcases event_leaves hc h.sound hrow with ⟨rfl, -, -⟩ | ⟨r', rfl, hact, -, -⟩
    · cases hold
    · cases hold
      exact hst hact
  rw [Function.update_of_ne hne, hr]

/-- **A commit keeps the balance.** -/
theorem World.commit (hw : World initial t) (h : Standing initial t pid op) (hc : op.Commits) :
    World initial (t.commit pid op.event) := by
  obtain ⟨orders, hmem, hstock, hslots⟩ := hw.balanced
  obtain ⟨hgood, hpend⟩ := hw.good_commit pid op.event
  obtain ⟨o, old, new, hrow, hbal, hbals⟩ := effect_balances hc h.sound
  have hres : (t.commit pid op.event).reservations.committed =
      Function.update t.reservations.committed o (some new) := h.committed_row hrow
  have hold : t.reservations.committed o = old := h.old o old new hrow
  refine ⟨⟨insert o orders, fun o' => ?_, fun k n hk => ?_, fun r => ?_⟩, hgood, hpend, ?_,
    fun o' => ?_⟩
  · rw [hres]
    by_cases ho : o' = o
    · subst ho
      simp
    · rw [Finset.mem_insert, Function.update_of_ne ho, ← hmem]
      exact or_iff_right ho
  · have hchange : t.stock.change available pid k = op.effect.stock k :=
      h.stock k (by rw [hk]; rfl)
    have hb := hbal k
    have hs := hstock k n hk
    rw [sum_written (held k) rfl hmem hres, hold]
    show available ((t.stock.commit pid).committed k) + _ = _
    rw [Rows.commit_committed_measure (m := available), hchange]
    omega
  · have hb := hbals r
    have hs := hslots r
    rw [sum_written (slot r) rfl hmem hres, hold]
    show active ((t.loads.commit pid).committed r) = _
    rw [Rows.commit_committed_measure (m := active), h.slots r]
    omega
  · show ((t.outbox ++ op.event).filterMap leaves).Nodup
    rw [List.filterMap_append]
    rcases event_leaves hc h.sound hrow with ⟨-, -, hev⟩ | ⟨r, rfl, hact, -, hev⟩
    · rw [hev, List.append_nil]
      exact hw.once
    · rw [hev]
      refine List.nodup_append.mpr ⟨hw.once, List.nodup_singleton o, ?_⟩
      rintro x hx y hy rfl
      rw [List.mem_singleton] at hy
      subst hy
      obtain ⟨r', hr', hst⟩ := (hw.left x).mp hx
      rw [hold] at hr'
      cases hr'
      exact hst hact
  · show o' ∈ (t.outbox ++ op.event).filterMap leaves ↔ _
    rw [List.filterMap_append, List.mem_append, Left, hres, hw.left]
    rcases event_leaves hc h.sound hrow with ⟨rfl, hact, hev⟩ | ⟨r, rfl, hact, hst, hev⟩
    · rw [hev]
      by_cases ho : o' = o
      · subst ho
        simp [Left, hold, hact]
      · simp [Left, Function.update_of_ne ho]
    · rw [hev]
      by_cases ho : o' = o
      · subst ho
        simp [hst]
      · simp [Left, ho]

/-! ### One statement -/

/-- What a statement of `pid`, on its way to `op'`, keeps. -/
structure Kept (initial : RestaurantId × ItemId → Option ℕ) (t t' : Tables) (pid : ℕ)
    (op' : Op) : Prop where
  world : World initial t'
  standing : Standing initial t' pid op'
  frame : Frame t t' pid
  left : ∀ o r, t.reservations.committed o = some r → r.status ≠ .active →
    t'.reservations.committed o = some r

theorem Kept.pass (hw : World initial t) (h : Standing initial t pid op)
    (heff : op'.effect = op.effect) (hs : op'.Sound) : Kept initial t t pid op' :=
  ⟨hw, h.pass heff hs, .refl t pid, fun _ _ hr _ => hr⟩

theorem Kept.rollback (hw : World initial t) (heff : op'.effect = {}) (hs : op'.Sound) :
    Kept initial t (t.rollback pid) pid op' :=
  ⟨hw.rollback pid, standing_rollback heff hs, frame_rollback, fun _ _ hr _ => hr⟩

theorem Kept.commit (hw : World initial t) (h : Standing initial t pid op) (hc : op.Commits)
    (heff : op'.effect = {}) (hs : op'.Sound) : Kept initial t (t.commit pid op.event) pid op' :=
  ⟨hw.commit h hc, standing_commit heff hs, frame_commit _, fun _ _ => h.left_kept hc⟩

/-- A write on a load row. -/
theorem Kept.loads {r : RestaurantId} {v : Load} (hw : World initial t)
    (h : Standing initial t pid op) (hfree : t.loads.free pid r)
    (hstock : op'.effect.stock = op.effect.stock) (hrow : op'.effect.row = op.effect.row)
    (hslots : ∀ r', op'.effect.slots r' = op.effect.slots r' +
      if r' = r then (v.active : ℤ) - active (t.loads.read pid r) else 0)
    (hs : op'.Sound) :
    Kept initial t { t with loads := t.loads.write pid r (some v) } pid op' :=
  ⟨hw.uncommitted rfl rfl rfl rfl hw.pending, h.loads hstock hrow hslots hs, frame_loads hfree,
    fun _ _ hr _ => hr⟩

/-- A write on a load row that leaves its slots. -/
theorem Kept.capacity {r : RestaurantId} {v : Load} (hw : World initial t)
    (h : Standing initial t pid op) (hfree : t.loads.free pid r)
    (hv : (v.active : ℤ) = active (t.loads.read pid r)) (heff : op'.effect = op.effect)
    (hs : op'.Sound) :
    Kept initial t { t with loads := t.loads.write pid r (some v) } pid op' := by
  refine Kept.loads hw h hfree (by rw [heff]) (by rw [heff]) (fun r' => ?_) hs
  rw [heff, hv, Int.sub_self, ite_self, add_zero]

/-- A write on a stock row, not below zero. -/
theorem Kept.stocks {k : RestaurantId × ItemId} {v a : ℤ} (hw : World initial t)
    (h : Standing initial t pid op) (hfree : t.stock.free pid k)
    (hread : t.stock.read pid k = some a) (hv : 0 ≤ v)
    (hslots : op'.effect.slots = op.effect.slots) (hrow : op'.effect.row = op.effect.row)
    (hstock : ∀ k', op'.effect.stock k' = op.effect.stock k' + if k' = k then v - a else 0)
    (hs : op'.Sound) :
    Kept initial t { t with stock := t.stock.write pid k (some v) } pid op' := by
  refine ⟨hw.uncommitted rfl rfl rfl rfl fun j u x hx => ?_, h.stocks hslots hrow ?_ hs,
    frame_stock hfree, fun _ _ hr _ => hr⟩
  · by_cases hj : j = k
    · subst hj
      rw [Rows.write_pending_self] at hx
      cases hx
      obtain ⟨hsome, -⟩ := hw.read pid j
      rw [hread] at hsome
      exact ⟨hsome, fun b hb => by cases hb; exact hv⟩
    · rw [Rows.write_pending_of_ne hj] at hx
      exact hw.pending j u x hx
  · rw [hread]
    exact hstock

theorem atRestaurant_append (restaurant : RestaurantId) (done : List ReservationLine)
    (line : ReservationLine) (k : RestaurantId × ItemId) :
    atRestaurant restaurant (done ++ [line]) k =
      atRestaurant restaurant done k + if k = (restaurant, line.itemId) then (line.qty : ℤ) else 0 := by
  obtain ⟨r, item⟩ := k
  rw [atRestaurant, atRestaurant, qtyOf_append, qtyOf_singleton]
  by_cases hr : r = restaurant
  · by_cases hitem : line.itemId = item
    · subst hr hitem
      simp
    · simp [hr, hitem, Ne.symm hitem]
  · simp [hr]

theorem atRestaurant_nil (restaurant : RestaurantId) :
    atRestaurant restaurant [] = fun _ => 0 := by
  funext k
  simp [atRestaurant, qtyOf]

theorem slot_nonneg (restaurant : RestaurantId) (o : Option Reservation) :
    0 ≤ slot restaurant o := by
  rcases o with _ | r
  · exact le_rfl
  · rw [slot]
    split <;> decide

/-- **A reservation's slot is there to be freed.** -/
theorem active_pos {order : OrderId} {r : Reservation} {e : Ending} {rest : List OrderId}
    (hw : World initial t) (h : Standing initial t pid (.freeSlot order r e rest)) :
    0 < active (t.loads.read pid r.restaurantId) := by
  have hold : t.reservations.committed order = some r := h.old _ _ _ rfl
  have hchange : t.loads.change active pid r.restaurantId = 0 := h.slots r.restaurantId
  obtain ⟨orders, hmem, -, hslots⟩ := hw.balanced
  have hin : order ∈ orders := (hmem order).mpr (by rw [hold]; rfl)
  have hone : slot r.restaurantId (t.reservations.committed order) = 1 := by
    rw [hold, slot_active h.sound]
    simp [oneSlot]
  have hle : 1 ≤ ∑ o ∈ orders, slot r.restaurantId (t.reservations.committed o) := by
    rw [← hone]
    exact Finset.single_le_sum (f := fun o => slot r.restaurantId (t.reservations.committed o))
      (fun o _ => slot_nonneg _ _) hin
  rw [← hslots] at hle
  rw [Rows.change] at hchange
  omega

section

variable {cfg : Config}

theorem occupySlot_kept {q : Request} (hw : World initial t)
    (h : Standing initial t pid (.occupySlot q))
    (hx : opStep cfg pid t (.occupySlot q) = some (t', op')) : Kept initial t t' pid op' := by
  obtain ⟨⟨loads, ok⟩, hu, hx⟩ := Option.map_eq_some_iff.mp hx
  rcases Rows.update_cases hu with ⟨rfl, rfl, -⟩ | ⟨rfl, hfree, v, v', hv, hc, rfl⟩
  · cases hx
    exact .rollback hw rfl trivial
  · cases hx
    unfold Tables.occupied at hc
    split at hc
    · cases hc
      refine .loads hw h hfree rfl rfl (fun r' => ?_) trivial
      rw [hv]
      show oneSlot q.restaurant r' = 0 + if r' = q.restaurant then _ else 0
      simp [oneSlot, active]
    · cases hc

/-- A line taken from stock. -/
theorem decrement_kept {q : Request} {done todo : List ReservationLine} (hw : World initial t)
    (h : Standing initial t pid (.decrement q done todo))
    (hx : opStep cfg pid t (.decrement q done todo) = some (t', op')) :
    Kept initial t t' pid op' := by
  have hs : q.lines = done ++ todo := h.sound
  cases todo with
  | nil =>
    cases hx
    rw [List.append_nil] at hs
    subst hs
    exact .pass hw h rfl trivial
  | cons line todo =>
    obtain ⟨⟨stock, ok⟩, hu, hx⟩ := Option.map_eq_some_iff.mp hx
    rcases Rows.update_cases hu with ⟨rfl, rfl, -⟩ | ⟨rfl, hfree, a, v, ha, hc, rfl⟩
    · cases hx
      exact .rollback hw rfl trivial
    · cases hx
      unfold Tables.taken at hc
      split at hc
      · next hle =>
        cases hc
        have hnonneg : 0 ≤ a - (line.qty : ℤ) := by omega
        refine .stocks hw h hfree ha hnonneg rfl rfl (fun k => ?_) ?_
        · show -atRestaurant _ (done ++ [line]) k = -atRestaurant _ done k + _
          rw [atRestaurant_append]
          split <;> omega
        · show q.lines = done ++ [line] ++ todo
          rw [hs, List.append_assoc]
          rfl
      · cases hc

/-- The one row that an operation is to write. -/
theorem insertReservation_kept {q : Request} (hw : World initial t)
    (h : Standing initial t pid (.insertReservation q))
    (hx : opStep cfg pid t (.insertReservation q) = some (t', op')) :
    Kept initial t t' pid op' := by
  obtain ⟨⟨reservations, ok⟩, hu, hx⟩ := Option.map_eq_some_iff.mp hx
  rcases Rows.insert_cases hu with ⟨rfl, rfl, -⟩ | ⟨rfl, hfree, hnone, rfl⟩
  · cases hx
    exact .rollback hw rfl trivial
  · cases hx
    rw [h.read_row rfl] at hnone
    exact ⟨hw.uncommitted rfl rfl rfl rfl hw.pending,
      h.reservation rfl rfl rfl rfl hnone trivial, frame_reservations hfree, fun _ _ hr _ => hr⟩

theorem finish_kept {order : OrderId} {e : Ending} {rest : List OrderId} (hw : World initial t)
    (h : Standing initial t pid (.finish order e rest))
    (hx : opStep cfg pid t (.finish order e rest) = some (t', op')) :
    Kept initial t t' pid op' := by
  obtain ⟨⟨reservations, ok⟩, hu, hx⟩ := Option.map_eq_some_iff.mp hx
  rcases Rows.update_cases hu with ⟨rfl, rfl, -⟩ | ⟨rfl, hfree, r, v, hr, hc, rfl⟩
  · cases hx
    exact .rollback hw (expireNext_effect rest).1 (expireNext_effect rest).2
  · simp only [hr] at hx
    cases hx
    have hold : t.reservations.committed order = some r := by rw [← h.read_row rfl, hr]
    unfold Tables.finished at hc
    split at hc
    · next hact =>
      cases hc
      refine ⟨hw.uncommitted rfl rfl rfl rfl hw.pending, ?_, frame_reservations hfree,
        fun _ _ hr _ => hr⟩
      cases he : e.restores with
      | true =>
        rw [if_pos rfl]
        refine h.reservation ?_ rfl rfl rfl hold ⟨hact, ?_⟩
        · exact atRestaurant_nil r.restaurantId
        · rw [Ending.restored, he]
          rfl
      | false =>
        rw [if_neg Bool.false_ne_true]
        refine h.reservation ?_ rfl rfl rfl hold hact
        have hnil : e.restored r = [] := by
          rw [Ending.restored, he]
          rfl
        show atRestaurant r.restaurantId (e.restored r) = fun _ => 0
        rw [hnil, atRestaurant_nil]
    · cases hc

/-- A line put back into stock.  A line without a stock row is nobody's. -/
theorem increment_kept {order : OrderId} {r : Reservation} {e : Ending}
    {done todo : List ReservationLine} {rest : List OrderId} (hw : World initial t)
    (h : Standing initial t pid (.increment order r e done todo rest))
    (hx : opStep cfg pid t (.increment order r e done todo rest) = some (t', op')) :
    Kept initial t t' pid op' := by
  obtain ⟨hact, hs⟩ : r.status = .active ∧ e.restored r = done ++ todo := h.sound
  cases todo with
  | nil =>
    cases hx
    rw [List.append_nil] at hs
    subst hs
    exact .pass hw h rfl hact
  | cons line todo =>
    obtain ⟨⟨stock, ok⟩, hu, hx⟩ := Option.map_eq_some_iff.mp hx
    cases hx
    have hs' : e.restored r = done ++ [line] ++ todo := by
      rw [hs, List.append_assoc]
      rfl
    rcases Rows.update_cases hu with ⟨-, rfl, hnone⟩ | ⟨-, hfree, a, v, ha, hc, rfl⟩
    · have hno : t.stock.read pid (r.restaurantId, line.itemId) = none := by
        rcases hread : t.stock.read pid (r.restaurantId, line.itemId) with _ | a
        · rfl
        · rw [hread] at hnone
          cases hnone
      refine ⟨hw, ⟨fun k hk => ?_, h.slots, h.row, h.old, hact, hs'⟩, .refl t pid,
        fun _ _ hr _ => hr⟩
      have hne : k ≠ (r.restaurantId, line.itemId) := by
        rintro rfl
        have hsome := (hw.read pid _).1.mpr hk
        rw [hno] at hsome
        cases hsome
      show _ = atRestaurant r.restaurantId (done ++ [line]) k
      rw [atRestaurant_append, if_neg hne, add_zero]
      exact h.stock k hk
    · cases hc
      have hnonneg : 0 ≤ a + (line.qty : ℤ) := by
        have := (hw.read pid _).2 a ha
        omega
      refine .stocks hw h hfree ha hnonneg rfl rfl (fun k => ?_) ⟨hact, hs'⟩
      show atRestaurant _ (done ++ [line]) k = atRestaurant _ done k + _
      rw [atRestaurant_append]
      split <;> omega

/-- The slot of the reservation that ends; there is one, by the balance. -/
theorem freeSlot_kept {order : OrderId} {r : Reservation} {e : Ending} {rest : List OrderId}
    (hw : World initial t) (h : Standing initial t pid (.freeSlot order r e rest))
    (hx : opStep cfg pid t (.freeSlot order r e rest) = some (t', op')) :
    Kept initial t t' pid op' := by
  have hpos := active_pos hw h
  obtain ⟨⟨loads, ok⟩, hu, hx⟩ := Option.map_eq_some_iff.mp hx
  cases hx
  rcases Rows.update_cases hu with ⟨-, -, hnone⟩ | ⟨-, hfree, v, v', hv, hc, rfl⟩
  · rcases hread : t.loads.read pid r.restaurantId with _ | load
    · rw [hread] at hpos
      exact absurd hpos (by decide)
    · rw [hread] at hnone hpos
      have hlt : 0 < load.active := Int.natCast_pos.mp hpos
      simp [Tables.freed, hlt] at hnone
  · unfold Tables.freed at hc
    split at hc
    · next hlt =>
      cases hc
      refine .loads hw h hfree rfl rfl (fun r' => ?_) h.sound
      rw [hv]
      show -oneSlot r.restaurantId r' = 0 + if r' = r.restaurantId then _ else 0
      simp only [oneSlot, active]
      split <;> omega
    · cases hc

theorem getLoad_kept {q : Request} (hw : World initial t) (h : Standing initial t pid (.getLoad q))
    (hx : opStep cfg pid t (.getLoad q) = some (t', op')) : Kept initial t t' pid op' := by
  simp only [opStep] at hx
  split at hx
  · cases hx
    exact .pass hw h rfl trivial
  · cases hx
    exact .pass hw h rfl trivial

/-- A new row has no slot in use. -/
theorem insertLoad_kept {r : RestaurantId} {capacity : ℕ} {loads : Rows RestaurantId Load ℕ}
    {ok : Bool} (hw : World initial t) (h : Standing initial t pid op) (heff : op.effect = {})
    (hu : t.loads.insert pid r ⟨0, capacity⟩ = some (loads, ok)) (heff' : op'.effect = {})
    (hs : op'.Sound) : Kept initial t { t with loads := loads } pid op' := by
  rcases Rows.insert_cases hu with ⟨-, rfl, -⟩ | ⟨-, hfree, hnone, rfl⟩
  · exact .pass hw h (heff'.trans heff.symm) hs
  · refine .capacity hw h hfree ?_ (heff'.trans heff.symm) hs
    rw [hnone]
    rfl

theorem setCapacity_kept {r : RestaurantId} {capacity : ℕ} {loads : Rows RestaurantId Load ℕ}
    {ok : Bool} (hw : World initial t) (h : Standing initial t pid op) (heff : op.effect = {})
    (hu : (t.loads.update pid r fun load => some { load with capacity := capacity }) =
      some (loads, ok)) (heff' : op'.effect = {}) (hs : op'.Sound) :
    Kept initial t { t with loads := loads } pid op' := by
  rcases Rows.update_cases hu with ⟨-, rfl, -⟩ | ⟨-, hfree, v, v', hv, hc, rfl⟩
  · exact .pass hw h (heff'.trans heff.symm) hs
  · cases hc
    refine .capacity hw h hfree ?_ (heff'.trans heff.symm) hs
    rw [hv]
    rfl

/-- **Every statement** keeps the balance of what is committed, what its operation has
uncommitted, and what the other operations have. -/
theorem opStep_kept (hw : World initial t) (h : Standing initial t pid op)
    (hx : opStep cfg pid t op = some (t', op')) : Kept initial t t' pid op' := by
  cases op with
  | idle | selectOverdue => cases hx
  | getReservation q =>
    simp only [opStep] at hx
    split at hx
    · cases hx
      exact .pass hw h rfl trivial
    · cases hx
      exact .pass hw h rfl trivial
  | getLoad q => exact getLoad_kept hw h hx
  | insertLoad q =>
    obtain ⟨⟨loads, ok⟩, hu, hx⟩ := Option.map_eq_some_iff.mp hx
    cases hx
    exact insertLoad_kept hw h rfl hu rfl trivial
  | occupySlot q => exact occupySlot_kept hw h hx
  | preCheck q =>
    simp only [opStep] at hx
    split at hx
    · cases hx
      exact .rollback hw rfl trivial
    · cases hx
      refine .pass hw h ?_ rfl
      simp [Op.effect, atRestaurant_nil]
  | decrement q done todo => exact decrement_kept hw h hx
  | insertReservation q => exact insertReservation_kept hw h hx
  | commitReserve q =>
    cases hx
    exact .commit hw h trivial rfl trivial
  | finish order e rest => exact finish_kept hw h hx
  | increment order r e done todo rest => exact increment_kept hw h hx
  | freeSlot order r e rest => exact freeSlot_kept hw h hx
  | commitFinish order r e rest =>
    cases hx
    exact .commit hw h trivial (expireNext_effect rest).1 (expireNext_effect rest).2
  | updateCapacity r capacity =>
    obtain ⟨⟨loads, ok⟩, hu, hx⟩ := Option.map_eq_some_iff.mp hx
    cases hx
    cases ok with
    | true => exact setCapacity_kept hw h rfl hu rfl trivial
    | false => exact setCapacity_kept hw h rfl hu rfl trivial
  | insertCapacity r capacity =>
    obtain ⟨⟨loads, ok⟩, hu, hx⟩ := Option.map_eq_some_iff.mp hx
    cases hx
    cases ok with
    | true => exact insertLoad_kept hw h rfl hu rfl trivial
    | false => exact insertLoad_kept hw h rfl hu rfl trivial
  | updateCapacityAgain r capacity =>
    obtain ⟨⟨loads, ok⟩, hu, hx⟩ := Option.map_eq_some_iff.mp hx
    cases hx
    exact setCapacity_kept hw h rfl hu rfl trivial
  | commitCapacity =>
    cases hx
    exact ⟨hw.commit_quiet h rfl, standing_commit rfl trivial, frame_commit _, fun o r hr _ => by
      rw [← hr]
      exact Rows.commit_committed_of_not_pending (h.not_pending rfl o)⟩

end

end

/-! ### Runs -/

structure Inv (initial : RestaurantId × ItemId → Option ℕ) (s : System) : Prop where
  world : World initial s.tables
  standing : ∀ pid, Standing initial s.tables pid (s.ops pid)

section

variable {initial : RestaurantId × ItemId → Option ℕ} {capacities : RestaurantId → Option ℕ}
  {cfg : Config} {s u : System} {e : Event} {es : List Event}

theorem Inv.set (hi : Inv initial s) {pid : ℕ} {t : Tables} {op : Op}
    (h : Kept initial s.tables t pid op) : Inv initial (s.set pid t op) := by
  refine ⟨h.world, fun v => ?_⟩
  by_cases hv : v = pid
  · subst hv
    show Standing initial t v (Function.update s.ops v op v)
    rw [Function.update_self]
    exact h.standing
  · show Standing initial t v (Function.update s.ops pid op v)
    rw [Function.update_of_ne hv]
    exact (hi.standing v).frame h.frame hv

/-- What a step does to the tables, it does as one operation. -/
theorem Inv.step_kept (hi : Inv initial s) (h : step cfg s e = some u) :
    ∃ pid t op, u = s.set pid t op ∧ Kept initial s.tables t pid op := by
  rcases step_cases h with ⟨pid, call, -, hidle, rfl⟩ | ⟨pid, t, op, -, hx, rfl⟩ |
    ⟨pid, now, orders, -, hop, -, rfl⟩ | ⟨pid, -, rfl⟩
  · refine ⟨pid, _, _, rfl, .pass hi.world (hi.standing pid) ?_ ?_⟩
    · rw [hidle]
      cases call <;> rfl
    · cases call <;> trivial
  · exact ⟨pid, t, op, rfl, opStep_kept hi.world (hi.standing pid) hx⟩
  · refine ⟨pid, _, _, rfl, .pass hi.world (hi.standing pid) ?_ (expireNext_effect orders).2⟩
    rw [hop]
    exact (expireNext_effect orders).1
  · exact ⟨pid, _, _, rfl, .rollback hi.world rfl trivial⟩

theorem Inv.step (hi : Inv initial s) (h : step cfg s e = some u) : Inv initial u := by
  obtain ⟨pid, t, op, rfl, hk⟩ := hi.step_kept h
  exact hi.set hk

theorem inv_stocked : Inv initial (.stocked initial capacities) := by
  refine ⟨⟨⟨∅, fun o => ?_, fun k n hk => ?_, fun r => ?_⟩, fun k => ?_, nofun, .nil, fun o => ?_⟩,
    fun pid => ?_⟩
  · simp [System.stocked, Rows.empty]
  · simp [System.stocked, available, hk]
  · rcases hr : capacities r <;> simp [System.stocked, active, hr]
  · rcases hk : initial k <;> simp [GoodStock, System.stocked, hk]
  · simp [System.stocked, Rows.empty, Left]
  · exact standing_closed (fun k => Rows.change_of_not_pending fun _ => nofun)
      (fun r => Rows.change_of_not_pending fun _ => nofun) (fun _ _ => nofun) rfl trivial

theorem inv_of_run (h : Run (step cfg) Always (.stocked initial capacities) es s) :
    Inv initial s := by
  have h0 : Inv initial (.stocked initial capacities) := inv_stocked
  exact h.invariant h0 fun _ _ _ hi _ hs => hi.step hs

/-- A reservation that has left `active` stays as it is. -/
theorem left_stays (hi : Inv initial s) (h : Run (step cfg) Always s es u) {o : OrderId}
    {r : Reservation} (hr : s.tables.reservations.committed o = some r)
    (hst : r.status ≠ .active) : u.tables.reservations.committed o = some r := by
  have hboth : Inv initial u ∧ u.tables.reservations.committed o = some r := by
    refine h.invariant (I := fun u => Inv initial u ∧
      u.tables.reservations.committed o = some r) ⟨hi, hr⟩ ?_
    rintro v i w ⟨hv, hrow⟩ - hs
    obtain ⟨pid, t, op, rfl, hk⟩ := hv.step_kept hs
    exact ⟨hv.set hk, hk.left o r hrow hst⟩
  exact hboth.2

/-- The committed tables are in order. -/
structure Conserved (initial : RestaurantId × ItemId → Option ℕ) (t : Tables) : Prop where
  /-- Stock and slots balance over the reservations. -/
  balanced : ∃ orders, Balanced initial t orders
  /-- The stock rows are those of the beginning, and none is below zero. -/
  stock : ∀ k, GoodStock initial k (t.stock.committed k)
  /-- One event for each reservation that has left `active`. -/
  once : (t.outbox.filterMap leaves).Nodup
  left : ∀ o, o ∈ t.outbox.filterMap leaves ↔ Left t o

/-- **Conservation**, for every interleaving of the operations' statements: the committed
tables balance, no amount is negative, and no reservation leaves `active` twice. -/
theorem conservation_of_run (h : Run (step cfg) Always (.stocked initial capacities) es s) :
    Conserved initial s.tables ∧
      ∀ es' u, Run (step cfg) Always s es' u → ∀ o r,
        s.tables.reservations.committed o = some r → r.status ≠ .active →
          u.tables.reservations.committed o = some r := by
  have hi := inv_of_run h
  obtain ⟨hbal, hgood, -, honce, hleft⟩ := hi.world
  exact ⟨⟨hbal, hgood, honce, hleft⟩, fun es' u hu o r hr hst => left_stays hi hu hr hst⟩

end

/-- Two lines for one item; a second order whose lines are short only together; a reaper
pass that waits for the order's commit and finds nothing left to expire. -/
def commitBeatsReaper : List Event :=
  [.start 0 (.reserve "o1" "R" [⟨"a", 2⟩, ⟨"a", 1⟩] none 0)] ++ List.replicate 10 (.run 0) ++
  [.start 1 (.reserve "o2" "R" [⟨"a", 1⟩, ⟨"a", 2⟩] none 0)] ++ List.replicate 6 (.run 1) ++
  [.start 0 (.commit "o1"), .start 1 .expireOverdue, .select 1 5000 ["o1"], .run 0, .run 0,
    .run 0, .run 1]

theorem conservation_of_run_reaper : ∃ s,
    Run (step {}) Always (.stocked (fun k => if k = ("R", "a") then some 5 else none) fun _ => none)
      commitBeatsReaper s ∧
    s.tables.stock.committed ("R", "a") = some 2 ∧ s.tables.outbox.filterMap leaves = ["o1"] ∧
    Conserved (fun k => if k = ("R", "a") then some 5 else none) s.tables := by
  obtain ⟨s, hrun, hp⟩ : ∃ s, Run (step {}) Always
      (.stocked (fun k => if k = ("R", "a") then some 5 else none) fun _ => none)
      commitBeatsReaper s ∧ decide (s.tables.stock.committed ("R", "a") = some 2 ∧
        s.tables.outbox.filterMap leaves = ["o1"]) = true :=
    exists_run_of_execOk (by decide)
  obtain ⟨hstock, hleft⟩ := of_decide_eq_true hp
  exact ⟨s, hrun, hstock, hleft, (conservation_of_run hrun).1⟩

end Interleaving

end Inventory
