/-
The sagas of all orders over one inventory.

The worker executes the activities of `OrderWorkflow` against the orders table and
`InventoryService`; an attempt is cut between its remote call and the move of the
row.  Payment is a port here: what is sent to it is recorded, what it answers is a
label.  The environment is the reaper, the kitchens, the couriers' marks and the
restaurants' admins.

* `View` — what the saga of one order sees of the world, by statuses;
* `work_spec`, `environment_spec` — one step of the worker and of the environment,
  as a change of the view;
* `work_frame` — no order's worker changes another order's view.

Left out: the delivery's dispatch calls, and the metrics.
-/
import SmartFoodOps.Order.Workflow
import SmartFoodOps.Inventory.Service

open Machine Durable
open Dispatch (OrderId RiderId)

namespace Order

namespace Saga

open Workflow
open Inventory (RestaurantId ItemId ReservationLine ReservationStatus)

/-- What `WorkflowInput` says about the order. -/
structure Cart where
  requestHash : String
  restaurantId : RestaurantId
  lines : List ReservationLine
  amountCents : ℤ
  currency : String
  cardToken : String

inductive MoneyCall
  | authorize (amountCents : ℤ) (currency cardToken : String)
  | capture
  | void
  deriving DecidableEq, Repr

structure World where
  orders : OrderId → Option OrderRow
  inventory : Inventory.Db
  /-- The calls sent to payment. -/
  payment : List (OrderId × MoneyCall)
  /-- The rest of a reaper pass. -/
  overdue : List OrderId

namespace World

def empty : World := ⟨fun _ => none, .empty, [], []⟩

def setOrder (w : World) (order : OrderId) (row : Option OrderRow) : World :=
  { w with orders := Function.update w.orders order row }

def setInventory (w : World) (db : Inventory.Db) : World := { w with inventory := db }

def call (w : World) (order : OrderId) (money : MoneyCall) : World :=
  { w with payment := w.payment ++ [(order, money)] }

end World

structure Config where
  cart : OrderId → Cart
  inventory : Inventory.Config := {}

/-- Where an attempt is: before its remote call, or between it and the row's move. -/
inductive Phase
  | first
  | second
  deriving DecidableEq, Repr

/-- What payment answers. -/
inductive PaymentReply
  | ok
  | declined
  | stateConflict
  deriving DecidableEq, Repr

structure Input where
  now : ℕ
  payment : PaymentReply := .ok
  deriving DecidableEq, Repr

/-! ### The activities -/

/-- `_transition`: an illegal move is not retried. -/
def moveRow (w : World) (order : OrderId) (expected target : OrderStatus)
    (event : Option EventType) (reason : Option CancelReason) (now : ℕ) (answer : Answer) :
    World × Attempt Phase Answer :=
  match transition (w.orders order) expected target event reason now with
  | .ok (row, _) => (w.setOrder order row, .answered answer)
  | .error _ => (w, .refused)

/-- `create_order`: an insert, or the row that is there. -/
def createOrder (cfg : Config) (w : World) (order : OrderId) : World :=
  match w.orders order with
  | none => w.setOrder order (some (.place (cfg.cart order).requestHash))
  | some _ => w

/-- `InventoryClient.reserve`. -/
def reserve (cfg : Config) (w : World) (order : OrderId) (now : ℕ) :
    World × Attempt Phase Answer :=
  match Inventory.reserve cfg.inventory w.inventory order (cfg.cart order).restaurantId
      (cfg.cart order).lines none now with
  | .ok (db, _) => (w.setInventory db, .working .second)
  | .error .insufficientStock => (w, .answered .itemUnavailable)
  | .error .atCapacity => (w, .answered .atCapacity)

/-- `PaymentClient.authorize`, whose 409 is retried. -/
def authorize (cfg : Config) (w : World) (order : OrderId) (reply : PaymentReply) :
    World × Attempt Phase Answer :=
  let cart := cfg.cart order
  (w.call order (.authorize cart.amountCents cart.currency cart.cardToken),
    match reply with
    | .ok => .working .second
    | .declined => .answered .declined
    | .stateConflict => .working .first)

/-- `try_begin_cancel`. -/
def tryBeginCancel (w : World) (order : OrderId) (reason : CancelReason) (now : ℕ) :
    World × Attempt Phase Answer :=
  match beginCancelFrom (w.orders order) cancellableKitchenStates reason now with
  | (row, cancelled) => (w.setOrder order row, .answered (if cancelled then .ok else .tooLate))

/-- One step of an attempt. -/
def work (cfg : Config) (order : OrderId) (activity : Activity) (phase : Phase) (input : Input)
    (w : World) : Option (World × Attempt Phase Answer) :=
  match activity, phase with
  | .createOrder, .first => some (createOrder cfg w order, .answered .done)
  | .validateAndReserve, .first => some (reserve cfg w order input.now)
  | .validateAndReserve, .second =>
    some (moveRow w order .placed .validated none none input.now .ok)
  | .authorizePayment, .first => some (authorize cfg w order input.payment)
  | .authorizePayment, .second =>
    some (moveRow w order .validated .paymentCleared none none input.now .ok)
  | .confirmOrder, .first =>
    some (moveRow w order .paymentCleared .confirmed (some .orderConfirmed) none input.now .done)
  | .markAccepted, .first =>
    some (moveRow w order .confirmed .accepted (some .orderAccepted) none input.now .done)
  | .beginCancel expected reason, .first =>
    some (moveRow w order expected .cancelling none (some reason) input.now .done)
  | .tryBeginCancel reason, .first => some (tryBeginCancel w order reason input.now)
  | .voidAuthorization, .first => some (w.call order .void, .answered .done)
  | .releaseReservation, .first =>
    some (w.setInventory (Inventory.release w.inventory order .cancelled).1, .answered .done)
  | .finishCancel reason, .first =>
    some (moveRow w order .cancelling .cancelled (some .orderCancelled) (some reason) input.now
      .done)
  | .cancelDispatch, .first => some (w, .answered .done)
  | .capturePayment, .first =>
    some (w.call order .capture,
      if input.payment = .stateConflict then .refused else .answered .done)
  | .settleOrder, .first =>
    -- the client reads only the status code: `committed: false` is a 200 too
    some (w.setInventory (Inventory.commit w.inventory order).1, .working .second)
  | .settleOrder, .second =>
    some (moveRow w order .delivered .settled (some .orderSettled) none input.now .done)
  | _, .second => none

def worker (cfg : Config) : Worker OrderId World Activity Phase Input Answer where
  first := .first
  work := work cfg

/-! ### The environment -/

/-- The moves of the row that are not the saga's: the kitchen's and the delivery's. -/
inductive OtherMove
  | preparing
  | ready
  | pickedUp
  | delivered
  deriving DecidableEq, Repr

def OtherMove.expected : OtherMove → OrderStatus
  | preparing => .accepted
  | ready => .preparing
  | pickedUp => .ready
  | delivered => .pickedUp

def OtherMove.target : OtherMove → OrderStatus
  | preparing => .preparing
  | ready => .ready
  | pickedUp => .pickedUp
  | delivered => .delivered

def OtherMove.event : OtherMove → EventType
  | preparing => .orderPreparing
  | ready => .orderReady
  | pickedUp => .orderPickedUp
  | delivered => .orderDelivered

inductive EnvEvent
  | otherMove (order : OrderId) (m : OtherMove) (now : ℕ)
  | recordRider (order : OrderId) (rider : RiderId)
  | selectOverdue (now : ℕ) (orders : List OrderId)
  | expireOne
  | setStock (restaurant : RestaurantId) (item : ItemId) (available : ℕ)
  | setCapacity (restaurant : RestaurantId) (capacity : ℕ)
  | provision (restaurant : RestaurantId) (items : List ItemId)
  deriving DecidableEq, Repr

/-- `overdue_reservations`' limit. -/
def reaperLimit : ℕ := 100

def environment (cfg : Config) (e : EnvEvent) (w : World) : Option World :=
  match e with
  | .otherMove order m now =>
    some (moveRow w order m.expected m.target (some m.event) none now .done).1
  | .recordRider order rider => some (w.setOrder order (recordRider (w.orders order) rider))
  | .selectOverdue now orders =>
    if Inventory.Overdue w.inventory now reaperLimit orders then
      some { w with overdue := w.overdue ++ orders }
    else none
  | .expireOne =>
    match w.overdue with
    | [] => none
    | order :: rest =>
      some { w with inventory := (Inventory.release w.inventory order .expired).1, overdue := rest }
  | .setStock restaurant item available =>
    some (w.setInventory (Inventory.setStock w.inventory restaurant item available))
  | .setCapacity restaurant capacity =>
    some (w.setInventory (Inventory.setCapacity w.inventory restaurant capacity))
  | .provision restaurant items =>
    some (w.setInventory (Inventory.provision cfg.inventory w.inventory restaurant items))

abbrev System := Family OrderId World Pos Phase Answer

abbrev SagaLabel := Label OrderId Input Signal Event EnvEvent

def System.empty : System := ⟨.empty, fun _ => ⟨{}, .working .first⟩⟩

def step (cfg : Config) (s : System) (l : SagaLabel) : Option System :=
  familyStep Workflow.flow (worker cfg) (environment cfg) s l

/-! ### What one order sees -/

structure View where
  status : Option OrderStatus
  reservation : Option ReservationStatus
  /-- The quantities of the reservation went back to stock. -/
  returned : Bool
  /-- A void was sent to payment. -/
  voided : Bool
  deriving DecidableEq, Repr

def view (order : OrderId) (w : World) : View where
  status := statusOf (w.orders order)
  reservation := (Inventory.standing w.inventory order).1
  returned := (Inventory.standing w.inventory order).2
  voided := w.payment.any fun call => call = (order, .void)

/-- A guarded move of the row, seen by its status. -/
def Moves (expected target : OrderStatus) (answer : Answer) (v v' : View)
    (t : Attempt Phase Answer) : Prop :=
  (v.status = some expected ∨ v.status = some target) ∧ v' = { v with status := some target } ∧
      t = .answered answer ∨
    v.status ≠ some expected ∧ v.status ≠ some target ∧ v' = v ∧ t = .refused

/-- An active reservation finishes; no other does. -/
def finished (target : ReservationStatus) (returned : Bool) (v : View) : View :=
  if v.reservation = some .active then
    { v with reservation := some target, returned := v.returned || returned }
  else v

/-- One step of an attempt, as a change of the view. -/
def Spec (activity : Activity) (phase : Phase) (v v' : View) (t : Attempt Phase Answer) : Prop :=
  match activity, phase with
  | .createOrder, .first =>
    v' = { v with status := v.status.or (some .placed) } ∧ t = .answered .done
  | .validateAndReserve, .first =>
    v' = { v with reservation := some (v.reservation.getD .active) } ∧ t = .working .second ∨
      v' = v ∧ v.reservation = none ∧ (t = .answered .itemUnavailable ∨ t = .answered .atCapacity)
  | .validateAndReserve, .second => Moves .placed .validated .ok v v' t
  | .authorizePayment, .first =>
    v' = v ∧ (t = .working .second ∨ t = .answered .declined ∨ t = .working .first)
  | .authorizePayment, .second => Moves .validated .paymentCleared .ok v v' t
  | .confirmOrder, .first => Moves .paymentCleared .confirmed .done v v' t
  | .markAccepted, .first => Moves .confirmed .accepted .done v v' t
  | .beginCancel expected _, .first => Moves expected .cancelling .done v v' t
  | .tryBeginCancel _, .first =>
    (∃ st, v.status = some st ∧ (st ∈ cancellableKitchenStates ∨ st = .cancelling)) ∧
        v' = { v with status := some .cancelling } ∧ t = .answered .ok ∨
      (∀ st, v.status = some st → st ∉ cancellableKitchenStates ∧ st ≠ .cancelling) ∧ v' = v ∧
        t = .answered .tooLate
  | .voidAuthorization, .first => v' = { v with voided := true } ∧ t = .answered .done
  | .releaseReservation, .first => v' = finished .released true v ∧ t = .answered .done
  | .finishCancel _, .first => Moves .cancelling .cancelled .done v v' t
  | .cancelDispatch, .first => v' = v ∧ t = .answered .done
  | .capturePayment, .first => v' = v ∧ (t = .answered .done ∨ t = .refused)
  | .settleOrder, .first => v' = finished .consumed false v ∧ t = .working .second
  | .settleOrder, .second => Moves .delivered .settled .done v v' t
  | _, .second => False

section

variable {cfg : Config} {w w' : World} {order other : OrderId}

theorem view_setOrder (row : Option OrderRow) :
    view order (w.setOrder order row) = { view order w with status := statusOf row } := by
  simp [view, World.setOrder]

theorem view_setOrder_ne (h : other ≠ order) (row : Option OrderRow) :
    view other (w.setOrder order row) = view other w := by
  simp [view, World.setOrder, Function.update_of_ne h]

theorem view_setInventory_ne {db : Inventory.Db}
    (h : Inventory.standing db other = Inventory.standing w.inventory other) :
    view other (w.setInventory db) = view other w := by
  simp only [view, World.setInventory, h]

theorem view_finished {db : Inventory.Db} {target : ReservationStatus} (returned : Bool)
    (h : Inventory.standing db order =
      if (Inventory.standing w.inventory order).1 = some .active then
        (some target, (Inventory.standing w.inventory order).2 || returned)
      else Inventory.standing w.inventory order) :
    view order (w.setInventory db) = finished target returned (view order w) := by
  by_cases ha : (Inventory.standing w.inventory order).1 = some .active
  · rw [if_pos ha] at h
    simp [view, World.setInventory, finished, h, ha]
  · rw [if_neg ha] at h
    simp [view, World.setInventory, finished, h, ha]

theorem view_released (reason : Inventory.ReleaseReason) :
    view order (w.setInventory (Inventory.release w.inventory order reason).1) =
      finished reason.target true (view order w) := by
  refine view_finished true ?_
  rw [(Inventory.standing_release w.inventory order order reason).1, Bool.or_true]

theorem view_committed :
    view order (w.setInventory (Inventory.commit w.inventory order).1) =
      finished .consumed false (view order w) := by
  refine view_finished false ?_
  rw [(Inventory.standing_commit w.inventory order order).1, Bool.or_false]

theorem view_call_ne (h : other ≠ order) (money : MoneyCall) :
    view other (w.call order money) = view other w := by
  simp [view, World.call, Ne.symm h]

theorem view_call_of_ne_void {money : MoneyCall} (h : money ≠ .void) :
    view other (w.call order money) = view other w := by
  simp [view, World.call, h]

theorem moveRow_spec {expected target : OrderStatus} {event : Option EventType}
    {reason : Option CancelReason} {now : ℕ} {answer : Answer} {t : Attempt Phase Answer}
    (h : moveRow w order expected target event reason now answer = (w', t)) :
    Moves expected target answer (view order w) (view order w') t := by
  unfold moveRow at h
  split at h
  · next row applied hok =>
    cases h
    obtain ⟨htarget, hfrom⟩ := transition_ok hok
    refine .inl ⟨?_, by rw [view_setOrder, htarget], rfl⟩
    rcases hfrom with hfrom | ⟨hfrom, -⟩
    · exact .inl hfrom
    · exact .inr hfrom
  · next e herr =>
    cases h
    exact .inr ⟨(transition_error herr).1, (transition_error herr).2, rfl, rfl⟩

/-- A move of another order's row. -/
theorem moveRow_frame {expected target : OrderStatus} {event : Option EventType}
    {reason : Option CancelReason} {now : ℕ} {answer : Answer} {t : Attempt Phase Answer}
    (h : moveRow w order expected target event reason now answer = (w', t)) (ho : other ≠ order) :
    view other w' = view other w := by
  unfold moveRow at h
  split at h
  · cases h
    exact view_setOrder_ne ho _
  · cases h
    rfl

theorem createOrder_spec :
    view order (createOrder cfg w order) =
      { view order w with status := (view order w).status.or (some .placed) } := by
  unfold createOrder
  split
  · next h =>
    rw [view_setOrder]
    simp [view, h, OrderRow.place]
  · next r h => simp [view, h]

theorem reserve_spec {now : ℕ} {t : Attempt Phase Answer}
    (h : reserve cfg w order now = (w', t)) :
    Spec .validateAndReserve .first (view order w) (view order w') t := by
  unfold reserve at h
  split at h
  · next db created hok =>
    cases h
    obtain ⟨hown, -⟩ := Inventory.standing_reserve order hok
    refine .inl ⟨?_, rfl⟩
    simp [view, World.setInventory, hown]
  · next herr =>
    cases h
    exact .inr ⟨rfl, Inventory.standing_of_reserve_error herr, .inl rfl⟩
  · next herr =>
    cases h
    exact .inr ⟨rfl, Inventory.standing_of_reserve_error herr, .inr rfl⟩

theorem tryBeginCancel_spec {reason : CancelReason} {now : ℕ} {t : Attempt Phase Answer}
    (h : tryBeginCancel w order reason now = (w', t)) :
    Spec (.tryBeginCancel reason) .first (view order w) (view order w') t := by
  unfold tryBeginCancel beginCancelFrom at h
  cases hrow : w.orders order with
  | none =>
    rw [hrow] at h
    cases h
    refine .inr ⟨fun st hst => ?_, ?_, rfl⟩
    · simp [view, hrow] at hst
    · rw [view_setOrder]
      simp [view, hrow]
  | some r =>
    rw [hrow] at h
    have hv : (view order w).status = some r.status := by simp [view, hrow]
    by_cases hin : r.status ∈ cancellableKitchenStates
    · simp only [hin, if_true] at h
      cases h
      refine .inl ⟨⟨r.status, hv, .inl hin⟩, ?_, rfl⟩
      rw [view_setOrder]
      rfl
    · simp only [hin, if_false] at h
      cases h
      have hsame : view order (w.setOrder order (some r)) = view order w := by
        rw [view_setOrder]
        simp [view, hrow]
      by_cases hc : r.status = .cancelling
      · refine .inl ⟨⟨r.status, hv, .inr hc⟩, ?_, by simp [hc]⟩
        rw [hsame, ← hc, ← hv]
      · refine .inr ⟨fun st hst => ?_, hsame, by simp [hc]⟩
        rw [hv] at hst
        cases hst
        exact ⟨hin, hc⟩

/-- Every activity can be attempted. -/
theorem work_first (cfg : Config) (order : OrderId) (activity : Activity) (input : Input)
    (w : World) : ∃ w' t, work cfg order activity .first input w = some (w', t) := by
  cases activity <;> exact ⟨_, _, rfl⟩

/-- **One step of the worker**, as its order sees it. -/
theorem work_spec {activity : Activity} {phase : Phase} {input : Input} {t : Attempt Phase Answer}
    (h : work cfg order activity phase input w = some (w', t)) :
    Spec activity phase (view order w) (view order w') t := by
  unfold work at h
  split at h
  · cases h; exact ⟨createOrder_spec, rfl⟩
  · exact reserve_spec (Option.some.inj h)
  · exact moveRow_spec (Option.some.inj h)
  · cases h
    refine ⟨view_call_of_ne_void (by simp), ?_⟩
    cases input.payment
    · exact .inl rfl
    · exact .inr (.inl rfl)
    · exact .inr (.inr rfl)
  · exact moveRow_spec (Option.some.inj h)
  · exact moveRow_spec (Option.some.inj h)
  · exact moveRow_spec (Option.some.inj h)
  · exact moveRow_spec (Option.some.inj h)
  · exact tryBeginCancel_spec (Option.some.inj h)
  · cases h
    exact ⟨by simp [view, World.call], rfl⟩
  · cases h
    exact ⟨view_released .cancelled, rfl⟩
  · exact moveRow_spec (Option.some.inj h)
  · cases h; exact ⟨rfl, rfl⟩
  · cases h
    refine ⟨view_call_of_ne_void (by simp), ?_⟩
    split
    · exact .inr rfl
    · exact .inl rfl
  · cases h
    exact ⟨view_committed, rfl⟩
  · exact moveRow_spec (Option.some.inj h)
  · cases h

/-- No worker changes what another order sees. -/
theorem work_frame {activity : Activity} {phase : Phase} {input : Input}
    {t : Attempt Phase Answer} (h : work cfg order activity phase input w = some (w', t))
    (ho : other ≠ order) : view other w' = view other w := by
  unfold work at h
  split at h
  · cases h
    unfold createOrder
    split
    · exact view_setOrder_ne ho _
    · rfl
  · have h := Option.some.inj h
    unfold reserve at h
    split at h
    · next db created hok =>
      cases h
      exact view_setInventory_ne ((Inventory.standing_reserve other hok).2 ho)
    · cases h; rfl
    · cases h; rfl
  · exact moveRow_frame (Option.some.inj h) ho
  · cases h; exact view_call_ne ho _
  · exact moveRow_frame (Option.some.inj h) ho
  · exact moveRow_frame (Option.some.inj h) ho
  · exact moveRow_frame (Option.some.inj h) ho
  · exact moveRow_frame (Option.some.inj h) ho
  · cases h; exact view_setOrder_ne ho _
  · cases h; exact view_call_ne ho _
  · cases h
    exact view_setInventory_ne ((Inventory.standing_release w.inventory order other .cancelled).2 ho)
  · exact moveRow_frame (Option.some.inj h) ho
  · cases h; rfl
  · cases h; exact view_call_ne ho _
  · cases h
    exact view_setInventory_ne ((Inventory.standing_commit w.inventory order other).2 ho)
  · exact moveRow_frame (Option.some.inj h) ho
  · cases h

/-- **One step of the environment**: a move of the row, the reaper, or nothing that
the order sees. -/
theorem environment_spec (order : OrderId) {e : EnvEvent} (h : environment cfg e w = some w') :
    view order w' = view order w ∨
    (∃ m now, e = .otherMove order m now ∧ (view order w).status = some m.expected ∧
      view order w' = { view order w with status := some m.target }) ∨
    (∃ rest, e = .expireOne ∧ w.overdue = order :: rest ∧
      view order w' = finished .expired true (view order w)) := by
  cases e with
  | otherMove o m now =>
    have h := Option.some.inj h
    obtain ⟨⟨w₁, t⟩, hm⟩ : ∃ p, moveRow w o m.expected m.target (some m.event) none now .done = p :=
      ⟨_, rfl⟩
    rw [hm] at h
    subst h
    by_cases ho : o = order
    · subst ho
      rcases moveRow_spec hm with ⟨hs, hv, -⟩ | ⟨-, -, hv, -⟩
      · by_cases hexp : (view o w).status = some m.expected
        · exact .inr (.inl ⟨m, now, rfl, hexp, hv⟩)
        · have htar := hs.resolve_left hexp
          refine .inl (hv.trans ?_)
          rw [← htar]
      · exact .inl hv
    · exact .inl (moveRow_frame hm (Ne.symm ho))
  | recordRider o rider =>
    cases h
    by_cases ho : order = o
    · subst ho
      refine .inl ?_
      rw [view_setOrder]
      cases hrow : w.orders order <;> simp [view, recordRider, hrow]
    · exact .inl (view_setOrder_ne ho _)
  | selectOverdue now orders =>
    simp only [environment] at h
    split at h
    · cases h; exact .inl rfl
    · cases h
  | expireOne =>
    simp only [environment] at h
    split at h
    · cases h
    · next o rest hover =>
      cases h
      by_cases ho : order = o
      · subst ho
        exact .inr (.inr ⟨rest, rfl, hover, view_released .expired⟩)
      · refine .inl ?_
        have hother := (Inventory.standing_release w.inventory o order .expired).2 ho
        simp only [view, hother]
  | setStock restaurant item available =>
    cases h
    refine .inl (view_setInventory_ne ?_)
    simp [Inventory.standing, Inventory.setStock, Inventory.Db.stageEvent, Inventory.Db.setStockRow,
      Inventory.InventoryEvent.releases]
  | setCapacity restaurant capacity =>
    cases h
    exact .inl (view_setInventory_ne (congrFun
      (Inventory.standing_congr (Inventory.setCapacity_ledger _ restaurant capacity)) order))
  | provision restaurant items =>
    cases h
    exact .inl (view_setInventory_ne (congrFun
      (Inventory.standing_congr (Inventory.provision_ledger _ _ restaurant items)) order))

end

end Saga

end Order
