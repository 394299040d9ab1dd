/-
A rider's capacity.

The cap is tested when an offer is reserved and used up later, when the offer is
accepted.  What links the two is the lock: it counts as one delivery from the
reservation on.

* `Write` — the writes of `RiderStore` on one item, in any order and any number;
* `Item` — the item with the offers reserved and neither accepted nor released since;
* `Within` — the bound, one lock at most, and acceptance by the lock's offer only;
* `within_iff` — every run keeps them, exactly when the cap is not zero: without the
  attribute `active_deliveries` the size is never compared with the cap;
* `occupied_le_of_run` — so no operation of dispatch overloads a rider.
-/
import SmartFoodOps.Dispatch.Interleaving
import Mathlib.Data.Finset.Card

open Machine

namespace Dispatch

/-- The deliveries under way, and the one that an offer lock keeps a place for. -/
def RiderState.occupied (s : RiderState) : ℕ :=
  s.activeDeliveries.card + if s.offerLock.isSome then 1 else 0

/-! ### The writes on one item -/

/-- A call of a store method that writes the item. -/
inductive Write
  | reserve (offer : OfferId) (order : OrderId)
  | accept (offer : OfferId) (order : OrderId)
  | releaseOffer (offer : OfferId)
  | finishDelivery (order : OrderId)
  | setOnline
  | setOffline
  deriving DecidableEq, Repr

/-- The write, if its condition holds. -/
def Write.apply (cap : ℕ) (s : RiderState) : Write → Option RiderState
  | reserve offer order => s.reserve offer order cap
  | accept offer order => s.accept offer order
  | releaseOffer offer => s.releaseOffer offer
  | finishDelivery order => s.finishDelivery order
  | setOnline => some s.setOnline
  | setOffline => some s.setOffline

variable {cap : ℕ} {s t : RiderState} {w : Write}

theorem occupied_reserve {offer : OfferId} {order : OrderId} (hcap : 0 < cap)
    (h : s.reserve offer order cap = some t) : t.occupied ≤ cap := by
  unfold RiderState.reserve at h
  split at h
  · next hc =>
    cases h
    obtain ⟨-, hroom, -⟩ := hc
    show s.activeDeliveries.card + 1 ≤ cap
    rcases hroom with hempty | hlt
    · rw [hempty, Finset.card_empty]
      omega
    · omega
  · cases h

/-- An acceptance turns the place kept by the lock into a delivery. -/
theorem occupied_accept {offer : OfferId} {order : OrderId}
    (h : s.accept offer order = some t) : t.occupied ≤ s.occupied := by
  obtain ⟨⟨d, hlock⟩, hnone, hactive⟩ := RiderState.accept_eq h
  have hinsert := Finset.card_insert_le order s.activeDeliveries
  simp only [RiderState.occupied, hlock, hnone, hactive, Option.isSome_some, Option.isSome_none,
    if_true, Bool.false_eq_true, if_false]
  omega

theorem occupied_releaseOffer {offer : OfferId} (h : s.releaseOffer offer = some t) :
    t.occupied ≤ s.occupied := by
  obtain ⟨-, hnone, hactive⟩ := RiderState.releaseOffer_eq h
  simp only [RiderState.occupied, hnone, hactive, Option.isSome_none, Bool.false_eq_true,
    if_false]
  omega

theorem occupied_finishDelivery {order : OrderId} (h : s.finishDelivery order = some t) :
    t.occupied ≤ s.occupied := by
  obtain ⟨-, hlock, hactive⟩ := RiderState.finishDelivery_eq h
  have herase := Finset.card_erase_le (s := s.activeDeliveries) (a := order)
  simp only [RiderState.occupied, hlock, hactive]
  omega

/-- **One write** keeps the bound. -/
theorem Write.occupied_le (hcap : 0 < cap) (hs : s.occupied ≤ cap)
    (h : w.apply cap s = some t) : t.occupied ≤ cap := by
  cases w with
  | reserve offer order => exact occupied_reserve hcap h
  | accept offer order => exact (occupied_accept h).trans hs
  | releaseOffer offer => exact (occupied_releaseOffer h).trans hs
  | finishDelivery order => exact (occupied_finishDelivery h).trans hs
  | setOnline => cases h; exact hs
  | setOffline => cases h; exact hs

/-! ### The item and its outstanding offers -/

structure Item where
  state : RiderState
  /-- The offers reserved, less those accepted or released since. -/
  outstanding : List OfferId

def Item.absent : Item := ⟨.absent, []⟩

/-- The outstanding offers after a write that applied. -/
def Write.settle (outstanding : List OfferId) : Write → List OfferId
  | reserve offer _ => offer :: outstanding
  | accept offer _ => outstanding.erase offer
  | releaseOffer offer => outstanding.erase offer
  | _ => outstanding

/-- A call whose condition fails leaves the item as it is. -/
def itemStep (cap : ℕ) (i : Item) (w : Write) : Option Item :=
  match w.apply cap i.state with
  | some s => some ⟨s, w.settle i.outstanding⟩
  | none => some i

/-- The lock is the outstanding offer. -/
def Item.Agrees (i : Item) : Prop :=
  i.outstanding = (i.state.offerLock.map (·.offerId)).toList

theorem itemStep_cases {i j : Item} (h : itemStep cap i w = some j) :
    j = i ∨ ∃ s, w.apply cap i.state = some s ∧ j = ⟨s, w.settle i.outstanding⟩ := by
  unfold itemStep at h
  split at h
  · next s hs =>
    cases h
    exact .inr ⟨s, hs, rfl⟩
  · cases h
    exact .inl rfl

/-- **One call** keeps the lock and the outstanding offers together. -/
theorem Item.Agrees.step {i j : Item} (hi : i.Agrees) (h : itemStep cap i w = some j) :
    j.Agrees := by
  rcases itemStep_cases h with rfl | ⟨s, hs, rfl⟩
  · exact hi
  unfold Item.Agrees at hi ⊢
  cases w with
  | reserve offer order =>
    obtain ⟨hnone, hlock, -⟩ := RiderState.reserve_eq hs
    simp [Write.settle, hi, hnone, hlock]
  | accept offer order =>
    obtain ⟨⟨d, hlock⟩, hnone, -⟩ := RiderState.accept_eq hs
    simp [Write.settle, hi, hlock, hnone]
  | releaseOffer offer =>
    obtain ⟨⟨d, hlock⟩, hnone, -⟩ := RiderState.releaseOffer_eq hs
    simp [Write.settle, hi, hlock, hnone]
  | finishDelivery order =>
    obtain ⟨-, hlock, -⟩ := RiderState.finishDelivery_eq hs
    simp [Write.settle, hi, hlock]
  | setOnline => cases hs; exact hi
  | setOffline => cases hs; exact hi

/-! ### Runs -/

/-- The three guarantees of a rider's item. -/
structure Within (cap : ℕ) (i : Item) : Prop where
  occupied : i.state.occupied ≤ cap
  one : i.outstanding.length ≤ 1
  accepts : ∀ offer order s, i.state.accept offer order = some s → i.outstanding = [offer]

/-- Whatever the cap, an offer is accepted only while it is the one outstanding. -/
theorem agrees_of_run {ws : List Write} {i : Item}
    (h : Run (itemStep cap) Always .absent ws i) :
    i.outstanding.length ≤ 1 ∧
      ∀ offer order s, i.state.accept offer order = some s → i.outstanding = [offer] := by
  have h0 : Item.absent.Agrees := rfl
  have hi : i.Agrees := h.invariant h0 fun _ _ _ hi _ hs => hi.step hs
  refine ⟨?_, fun offer order s hs => ?_⟩
  · rw [hi]
    cases i.state.offerLock <;> simp
  · obtain ⟨⟨d, hlock⟩, -⟩ := RiderState.accept_eq hs
    rw [hi, hlock]
    rfl

theorem occupied_le_of_itemRun {ws : List Write} {i : Item} (hcap : 0 < cap)
    (h : Run (itemStep cap) Always .absent ws i) : i.state.occupied ≤ cap := by
  refine h.invariant (I := fun i => i.state.occupied ≤ cap) (Nat.zero_le _) ?_
  intro i w j hi _ hs
  rcases itemStep_cases hs with rfl | ⟨s, happ, rfl⟩
  · exact hi
  · exact Write.occupied_le hcap hi happ

/-- **The guarantees hold in every run exactly when the cap is not zero.** -/
theorem within_iff (cap : ℕ) :
    (∀ ws i, Run (itemStep cap) Always .absent ws i → Within cap i) ↔ 0 < cap := by
  constructor
  · intro h
    by_contra hcap
    obtain rfl : cap = 0 := by omega
    -- a rider without deliveries is below any cap
    have hrun : Run (itemStep 0) Always .absent [.setOnline, .reserve "off" "o"]
        ⟨⟨.online, some ⟨"off", "o"⟩, ∅, 1, 0⟩, ["off"]⟩ := run_iff_exec.mpr rfl
    exact absurd (h _ _ hrun).occupied (by decide)
  · intro hcap ws i h
    obtain ⟨hone, haccepts⟩ := agrees_of_run h
    exact ⟨occupied_le_of_itemRun hcap h, hone, haccepts⟩

/-- With the cap zero, a rider who comes online is offered an order. -/
theorem overloaded_at_zero : ∃ i,
    Run (itemStep 0) Always .absent [.setOnline, .reserve "off" "o"] i ∧ ¬ i.state.occupied ≤ 0 :=
  ⟨_, run_iff_exec.mpr rfl, by decide⟩

/-! ### The operations of dispatch -/

/-- A conditional write of an operation is a write on the item. -/
theorem onRider_writes (t : Tables) (rider r : RiderId) (w : Write) :
    (t.onRider rider fun s => w.apply cap s).1.riders r = t.riders r ∨
      w.apply cap (t.riders r) =
        some ((t.onRider rider fun s => w.apply cap s).1.riders r) := by
  rcases t.onRider_cases rider fun s => w.apply cap s with ⟨s, hs, heq⟩ | ⟨-, heq⟩
  · rw [heq]
    by_cases hr : r = rider
    · subst hr
      exact .inr (by simp [hs])
    · exact .inl (by simp [hr])
  · exact .inl (by rw [heq])

theorem onDelivery_riders (t : Tables) (d : OrderId)
    (write : Option DeliveryRow → Option DeliveryRow) :
    (t.onDelivery d write).1.riders = t.riders := by
  rcases t.onDelivery_cases d write with ⟨row, -, heq⟩ | ⟨-, heq⟩ <;> rw [heq]
  rfl

/-- A store call of an operation leaves a rider's item, or writes it once. -/
theorem opStep_writes {fresh : OfferId} {t u : Tables} {op op' : Op} (r : RiderId)
    (h : opStep cap fresh t op = some (u, op')) :
    u.riders r = t.riders r ∨ ∃ w : Write, w.apply cap (t.riders r) = some (u.riders r) := by
  have hrider : ∀ rider (w : Write), let u := (t.onRider rider fun s => w.apply cap s).1
      u.riders r = t.riders r ∨ ∃ w : Write, w.apply cap (t.riders r) = some (u.riders r) :=
    fun rider w => (onRider_writes t rider r w).imp_right fun h => ⟨w, h⟩
  cases does h with
  | reserves | passesOver => exact hrider _ (.reserve fresh _)
  | releases | findsNoLock | releasesCancelled => exact hrider _ (.releaseOffer _)
  | accepts | comesTooLate => exact hrider _ (.accept _ _)
  | finishesUnassigned | finishesCancelled | finishesDelivered => exact hrider _ (.finishDelivery _)
  | _ => first | exact .inl rfl | exact .inl (congrFun (onDelivery_riders ..) r)

/-- **No rider is overloaded**, however the operations of dispatch interleave. -/
theorem occupied_le_of_run {es : List Event} {s : System} (hcap : 0 < cap)
    (h : Run (step cap) Always .empty es s) (rider : RiderId) :
    (s.tables.riders rider).occupied ≤ cap := by
  refine h.invariant (I := fun s => (s.tables.riders rider).occupied ≤ cap) (Nat.zero_le _) ?_
  intro s e u hi _ hs
  rcases step_cases hs with ⟨call, -, rfl⟩ | ⟨pid, fresh, op, t, op', -, -, -, hop, rfl⟩ |
    ⟨r, p, -, rfl⟩
  · exact hi
  · rcases opStep_writes rider hop with hsame | ⟨w, hw⟩
    · show (t.riders rider).occupied ≤ cap
      rw [hsame]
      exact hi
    · exact Write.occupied_le hcap hi hw
  · -- presence is not part of the load
    by_cases hr : rider = r
    · subst hr
      simpa [RiderState.occupied] using hi
    · simpa [hr] using hi

end Dispatch
