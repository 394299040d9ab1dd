/-
The life of an order row.

Ten kinds of writers race on the row of one order: the activities of the saga, each
executed at least once, the kitchen's two moves and the set-guarded cancel.  Each is one
transaction around a guarded UPDATE, so the writers may come in any order and any
number; the re-read after an UPDATE of no row only decides what the writer is told.

* `Writer`, `step` — the writers of one row, with the row's past statuses beside it;
* `Edge` — the graph of the order's statuses, which `rank` strictly ascends;
* `Lifecycle` — what holds of the row and its path: the milestones, the events and the
  cancellation record are those of the path;
* `lifecycle_of_run` — it holds in every reachable state, and what is written once stays;
* `sagaStep_writes` — the sagas, the kitchens and the couriers write by these writers.
-/
import SmartFoodOps.Order.Saga
import Mathlib.Data.List.Chain
import Mathlib.Data.List.Nodup

open Machine
open Dispatch (OrderId RiderId)

namespace Order

namespace Lifecycle

/-! ### The writers -/

/-- Where the workflow's own unwind may begin. -/
inductive UnwindFrom
  | placed
  | validated
  | paymentCleared
  | confirmed
  deriving DecidableEq, Repr

def UnwindFrom.status : UnwindFrom → OrderStatus
  | placed => .placed
  | validated => .validated
  | paymentCleared => .paymentCleared
  | confirmed => .confirmed

inductive Writer
  | createOrder (requestHash : String)
  | validateAndReserve
  | authorizePayment
  | confirmOrder
  | markAccepted
  | setPreparing
  | setReady
  | markPickedUp
  | markDelivered
  | settleOrder
  | beginCancel (expected : UnwindFrom) (reason : CancelReason)
  | tryBeginCancel (reason : CancelReason)
  | finishCancel (reason : CancelReason)
  | recordRider (rider : RiderId)
  deriving DecidableEq, Repr

/-- The row after `transition`, which an illegal move leaves as it is. -/
def moved (row : Option OrderRow) (expected target : OrderStatus) (event : Option EventType)
    (reason : Option CancelReason) (now : ℕ) : Option OrderRow :=
  match transition row expected target event reason now with
  | .ok (row, _) => row
  | .error _ => row

/-- The transaction of a writer. -/
def Writer.write (row : Option OrderRow) (now : ℕ) : Writer → Option OrderRow
  | createOrder requestHash => row.or (some (.place requestHash))
  | validateAndReserve => moved row .placed .validated none none now
  | authorizePayment => moved row .validated .paymentCleared none none now
  | confirmOrder => moved row .paymentCleared .confirmed (some .orderConfirmed) none now
  | markAccepted => moved row .confirmed .accepted (some .orderAccepted) none now
  | setPreparing => moved row .accepted .preparing (some .orderPreparing) none now
  | setReady => moved row .preparing .ready (some .orderReady) none now
  | markPickedUp => moved row .ready .pickedUp (some .orderPickedUp) none now
  | markDelivered => moved row .pickedUp .delivered (some .orderDelivered) none now
  | settleOrder => moved row .delivered .settled (some .orderSettled) none now
  | beginCancel expected reason => moved row expected.status .cancelling none (some reason) now
  | tryBeginCancel reason => (beginCancelFrom row cancellableKitchenStates reason now).1
  | finishCancel reason =>
    moved row .cancelling .cancelled (some .orderCancelled) (some reason) now
  | recordRider rider => Order.recordRider row rider

/-- The row, and the values that `orders.status` has had, oldest first. -/
structure History where
  row : Option OrderRow
  path : List OrderStatus

def History.empty : History := ⟨none, []⟩

structure Write where
  writer : Writer
  now : ℕ
  deriving DecidableEq, Repr

/-- One transaction; the status is noted when it changes. -/
def step (h : History) (w : Write) : Option History :=
  let row := w.writer.write h.row w.now
  some ⟨row, if statusOf row = statusOf h.row then h.path else h.path ++ (statusOf row).toList⟩

/-! ### The graph -/

/-- The next status of an order that nobody cancels. -/
def forward : OrderStatus → Option OrderStatus
  | .placed => some .validated
  | .validated => some .paymentCleared
  | .paymentCleared => some .confirmed
  | .confirmed => some .accepted
  | .accepted => some .preparing
  | .preparing => some .ready
  | .ready => some .pickedUp
  | .pickedUp => some .delivered
  | .delivered => some .settled
  | .settled | .cancelling | .cancelled | .refunded => none

/-- The courier does not hold the food yet. -/
def beforePickedUp : OrderStatus → Bool
  | .placed | .validated | .paymentCleared | .confirmed | .accepted | .preparing | .ready => true
  | _ => false

/-- The arrows: forward, into CANCELLING before the pickup, and out of it. -/
def Edge (a b : OrderStatus) : Prop :=
  forward a = some b ∨ (beforePickedUp a = true ∧ b = .cancelling) ∨
    (a = .cancelling ∧ b = .cancelled)

instance (a b : OrderStatus) : Decidable (Edge a b) :=
  inferInstanceAs (Decidable (_ ∨ _))

def rank : OrderStatus → ℕ
  | .placed => 0
  | .validated => 1
  | .paymentCleared => 2
  | .confirmed => 3
  | .accepted => 4
  | .preparing => 5
  | .ready => 6
  | .pickedUp => 7
  | .delivered => 8
  | .settled => 9
  | .cancelling => 10
  | .cancelled => 11
  | .refunded => 12

theorem Edge.rank_lt {a b : OrderStatus} (h : Edge a b) : rank a < rank b := by
  rcases h with h | ⟨h, rfl⟩ | ⟨rfl, rfl⟩
  · cases a <;> cases h <;> decide
  · cases a <;> first | decide | cases h
  · decide

/-- A path of the graph visits no status twice. -/
theorem nodup_of_chain {path : List OrderStatus} (h : path.IsChain Edge) : path.Nodup := by
  have hrank : (path.map rank).IsChain (· < ·) := by
    rw [List.isChain_map]
    exact h.imp fun _ _ he => he.rank_lt
  have hpairs : (path.map rank).Pairwise (· < ·) := List.isChain_iff_pairwise.mp hrank
  exact List.Nodup.of_map rank (hpairs.imp fun hlt => ne_of_lt hlt)

/-- The event that announces a status. -/
def eventOf : OrderStatus → Option EventType
  | .placed => some .orderPlaced
  | .confirmed => some .orderConfirmed
  | .accepted => some .orderAccepted
  | .preparing => some .orderPreparing
  | .ready => some .orderReady
  | .pickedUp => some .orderPickedUp
  | .delivered => some .orderDelivered
  | .settled => some .orderSettled
  | .cancelled => some .orderCancelled
  | .validated | .paymentCleared | .cancelling | .refunded => none

theorem eventOf_inj {a b : OrderStatus} {e : EventType} (ha : eventOf a = some e)
    (hb : eventOf b = some e) : a = b := by
  cases a <;> cases ha <;> cases b <;> first | rfl | cases hb

/-! ### What a writer does to the row -/

section

variable {row : Option OrderRow} {r : OrderRow} {path : List OrderStatus} {now : ℕ}

/-- A move along an arrow, with what commits with it. -/
inductive Applied (now : ℕ) (r : OrderRow) (target : OrderStatus) : OrderRow → Prop
  | intro (reason : Option CancelReason) (hedge : Edge r.status target)
      (hreason : reason.isSome ↔ target = .cancelling ∨ target = .cancelled) :
      Applied now r target ((r.moveTo target now).announce (eventOf target) reason now)

/-- A transaction leaves the row, places the order, stamps the rider, or moves the row
along an arrow. -/
inductive Effect (now : ℕ) : Option OrderRow → Option OrderRow → Prop
  | same {row : Option OrderRow} : Effect now row row
  | placed {requestHash : String} : Effect now none (some (.place requestHash))
  | rider {r : OrderRow} {rider : RiderId} :
      Effect now (some r) (some { r with riderId := some rider })
  | applied {r r' : OrderRow} {target : OrderStatus} (h : Applied now r target r') :
      Effect now (some r) (some r')

/-- A move applies, or leaves the row as it is. -/
theorem moved_cases {expected target : OrderStatus} {event : Option EventType}
    {reason : Option CancelReason} : moved row expected target event reason now = row ∨
      ∃ r, row = some r ∧ r.status = expected ∧ moved row expected target event reason now =
        some ((r.moveTo target now).announce event reason now) := by
  rcases row with _ | r
  · exact .inl rfl
  · unfold moved transition
    by_cases he : r.status = expected
    · simp only [if_pos he]
      exact .inr ⟨r, rfl, he, rfl⟩
    · by_cases ht : r.status = target
      · simp only [if_neg he, if_pos ht]
        exact .inl trivial
      · simp only [if_neg he, if_neg ht]
        exact .inl trivial

theorem effect_moved {expected target : OrderStatus} {reason : Option CancelReason}
    (hedge : Edge expected target)
    (hreason : reason.isSome ↔ target = .cancelling ∨ target = .cancelled) :
    Effect now row (moved row expected target (eventOf target) reason now) := by
  rcases @moved_cases row now expected target (eventOf target) reason with he | ⟨r, rfl, rfl, he⟩
  · rw [he]
    exact .same
  · rw [he]
    exact .applied ⟨_, hedge, hreason⟩

/-- **One transaction**, for each of the writers. -/
theorem effect_write (w : Writer) : Effect now row (w.write row now) := by
  cases w with
  | createOrder requestHash =>
    cases row with
    | none => exact .placed
    | some r => exact .same
  | beginCancel expected reason =>
    refine effect_moved (.inr (.inl ⟨?_, rfl⟩)) (by simp)
    cases expected <;> rfl
  | tryBeginCancel reason =>
    cases row with
    | none => exact .same
    | some r =>
      by_cases hs : r.status ∈ cancellableKitchenStates
      · have hedge : Edge r.status .cancelling := by
          refine .inr (.inl ⟨?_, rfl⟩)
          rcases hst : r.status <;> rw [hst] at hs <;> first | rfl | exact absurd hs (by decide)
        have hw : (beginCancelFrom (some r) cancellableKitchenStates reason now).1 =
            some ((r.moveTo .cancelling now).announce (eventOf .cancelling) (some reason) now) := by
          simp [beginCancelFrom, hs, OrderRow.announce, eventOf, OrderRow.recordCancellation]
        show Effect now _ (beginCancelFrom _ _ _ _).1
        rw [hw]
        exact .applied ⟨_, hedge, by simp⟩
      · show Effect now _ (beginCancelFrom _ _ _ _).1
        simp only [beginCancelFrom, if_neg hs]
        exact .same
  | finishCancel reason => exact effect_moved (.inr (.inr ⟨rfl, rfl⟩)) (by simp)
  | recordRider rider =>
    cases row with
    | none => exact .same
    | some r => exact .rider
  | validateAndReserve =>
    exact effect_moved (show Edge .placed .validated from .inl rfl) (by simp)
  | authorizePayment =>
    exact effect_moved (show Edge .validated .paymentCleared from .inl rfl) (by simp)
  | confirmOrder | markAccepted | setPreparing | setReady | markPickedUp | markDelivered
  | settleOrder => exact effect_moved (.inl rfl) (by simp)

/-! ### The invariant -/

/-- The row and its path. -/
structure Follows (r : OrderRow) (path : List OrderStatus) : Prop where
  starts : path.head? = some .placed
  reached : path.getLast? = some r.status
  chain : path.IsChain Edge
  /-- A milestone is stamped exactly if its status is on the path. -/
  milestones : ∀ st, (r.milestones st).isSome ↔ isMilestone st = true ∧ st ∈ path
  /-- The events are those of the path, in its order. -/
  events : r.events = path.filterMap eventOf
  cancellation : r.cancellation.isSome ↔ r.status = .cancelling ∨ r.status = .cancelled

/-- No status is reached twice, so no milestone is stamped and no event staged twice. -/
theorem Follows.nodup (h : Follows r path) : path.Nodup ∧ r.events.Nodup := by
  have hpath := nodup_of_chain h.chain
  refine ⟨hpath, ?_⟩
  rw [h.events]
  exact hpath.filterMap fun a b e ha hb => eventOf_inj ha hb

/-- A status was reached by an arrow, unless it is PLACED. -/
theorem Follows.exists_before {b : OrderStatus} (h : Follows r path) (hb : b ∈ path) (hne : b ≠ .placed) :
    ∃ a ∈ path, Edge a b := by
  obtain ⟨before, after, rfl⟩ := List.append_of_mem hb
  rcases List.eq_nil_or_concat before with rfl | ⟨l, a, rfl⟩
  · have hstart := h.starts
    rw [List.nil_append, List.head?_cons] at hstart
    exact absurd (Option.some.inj hstart) hne
  · refine ⟨a, by simp, ?_⟩
    have hlink := (List.isChain_append.mp h.chain).2.2
    exact hlink a (by simp) b rfl

/-- No status of the path is behind the one that the row has. -/
theorem Follows.rank_le_status {a : OrderStatus} (h : Follows r path) (ha : a ∈ path) : rank a ≤ rank r.status := by
  obtain ⟨before, hpath⟩ := List.getLast?_eq_some_iff.mp h.reached
  have hrank : (path.map rank).IsChain (· < ·) := by
    rw [List.isChain_map]
    exact h.chain.imp fun _ _ he => he.rank_lt
  have hpairs : (path.map rank).Pairwise (· < ·) := List.isChain_iff_pairwise.mp hrank
  rw [hpath, List.mem_append, List.mem_singleton] at ha
  rcases ha with ha | rfl
  · rw [hpath, List.map_append, List.pairwise_append] at hpairs
    exact le_of_lt (hpairs.2.2 _ (List.mem_map_of_mem ha) _ (by simp))
  · exact le_refl _

/-- One step back along the way of an order that nobody cancels. -/
theorem Follows.mem_of_forward {a b : OrderStatus} (h : Follows r path) (hf : forward a = some b) (hb : b ∈ path) :
    a ∈ path := by
  have hne : b ≠ .placed := by
    rintro rfl
    cases a <;> cases hf
  obtain ⟨c, hc, hedge⟩ := h.exists_before hb hne
  have hca : c = a := by
    rcases hedge with hfc | ⟨-, rfl⟩ | ⟨-, rfl⟩
    · cases a <;> cases hf <;> cases c <;> first | rfl | cases hfc
    · cases a <;> cases hf
    · cases a <;> cases hf
  exact hca ▸ hc

/-- No writer refunds an order. -/
theorem Follows.ne_refunded (h : Follows r path) : r.status ≠ .refunded := by
  intro hst
  have hmem : r.status ∈ path := List.mem_of_getLast? h.reached
  rw [hst] at hmem
  obtain ⟨a, -, hedge⟩ := h.exists_before hmem (by decide)
  cases a <;> exact absurd hedge (by decide)

theorem Edge.ne {a b : OrderStatus} (h : Edge a b) : a ≠ b := by
  rintro rfl
  exact lt_irrefl _ h.rank_lt

theorem follows_place (requestHash : String) : Follows (.place requestHash) [.placed] := by
  refine ⟨rfl, rfl, .singleton _, fun st => ?_, rfl, by simp [OrderRow.place]⟩
  cases st <;> simp [OrderRow.place, isMilestone]

theorem Follows.rider (h : Follows r path) (rider : RiderId) :
    Follows { r with riderId := some rider } path :=
  ⟨h.starts, h.reached, h.chain, h.milestones, h.events, h.cancellation⟩

@[simp] theorem announce_milestones {event : Option EventType} {reason : Option CancelReason} :
    (r.announce event reason now).milestones = r.milestones := by
  cases reason <;> rfl

@[simp] theorem announce_events {event : Option EventType} {reason : Option CancelReason} :
    (r.announce event reason now).events = r.events ++ event.toList := by
  cases reason <;> rfl

theorem announce_cancellation {event : Option EventType} {reason : Option CancelReason} :
    (r.announce event reason now).cancellation =
      r.cancellation.or (reason.map fun reason => (reason, now)) := by
  cases reason <;> simp [OrderRow.announce, OrderRow.recordCancellation]

/-- **A move along an arrow** extends the path by its target. -/
theorem Follows.applied {r' : OrderRow} {target : OrderStatus} (h : Follows r path)
    (ha : Applied now r target r') : Follows r' (path ++ [target]) := by
  obtain ⟨reason, hedge, hreason⟩ := ha
  have hne : path ≠ [] := by
    rintro rfl
    exact absurd h.starts nofun
  refine ⟨?_, by simp, ?_, fun st => ?_, ?_, ?_⟩
  · rw [List.head?_append_of_ne_nil _ hne]
    exact h.starts
  · refine h.chain.append (.singleton _) fun a ha b hb => ?_
    rw [h.reached] at ha
    cases ha
    cases hb
    exact hedge
  · rw [announce_milestones, List.mem_append, List.mem_singleton]
    by_cases hm : isMilestone target = true
    · by_cases hst : st = target
      · subst hst
        simp [OrderRow.moveTo, hm]
      · simp [OrderRow.moveTo, hm, hst, h.milestones st]
    · simp only [OrderRow.moveTo, if_neg hm, h.milestones st]
      constructor
      · exact fun ⟨h1, h2⟩ => ⟨h1, .inl h2⟩
      · rintro ⟨h1, h2 | rfl⟩
        · exact ⟨h1, h2⟩
        · exact absurd h1 hm
  · rw [announce_events, List.filterMap_append]
    show r.events ++ _ = _
    rw [h.events]
    cases he : eventOf target <;> simp [he]
  · rw [announce_cancellation, announce_status, moveTo_status]
    show (r.cancellation.or _).isSome ↔ _
    rw [← hreason]
    cases hr : reason with
    | some reason => simp
    | none =>
      -- forward moves start where there is no cancellation record
      have hforward : forward r.status = some target := by
        rcases hedge with hf | ⟨-, rfl⟩ | ⟨-, rfl⟩
        · exact hf
        · simp [hr] at hreason
        · simp [hr] at hreason
      have hlive : ¬ (r.status = .cancelling ∨ r.status = .cancelled) := by
        rintro (hs | hs) <;> rw [hs] at hforward <;> cases hforward
      simpa using mt h.cancellation.mp hlive

theorem Applied.status {r' : OrderRow} {target : OrderStatus} (ha : Applied now r target r') :
    r'.status = target ∧ r'.status ≠ r.status := by
  obtain ⟨reason, hedge, -⟩ := ha
  rw [announce_status, moveTo_status]
  exact ⟨rfl, hedge.ne.symm⟩

/-- What is written once stays. -/
structure Keeps (r r' : OrderRow) : Prop where
  milestones : ∀ st t, r.milestones st = some t → r'.milestones st = some t
  cancellation : ∀ c, r.cancellation = some c → r'.cancellation = some c
  events : r.events <+: r'.events

theorem Keeps.refl (r : OrderRow) : Keeps r r := ⟨fun _ _ h => h, fun _ h => h, List.prefix_rfl⟩

theorem Keeps.trans {r₁ r₂ r₃ : OrderRow} (h : Keeps r₁ r₂) (h' : Keeps r₂ r₃) : Keeps r₁ r₃ :=
  ⟨fun st t ht => h'.milestones st t (h.milestones st t ht),
    fun c hc => h'.cancellation c (h.cancellation c hc), h.events.trans h'.events⟩

theorem Applied.keeps {r' : OrderRow} {target : OrderStatus} (h : Follows r path)
    (ha : Applied now r target r') : Keeps r r' := by
  have hnew := (h.applied ha).nodup.1
  obtain ⟨reason, hedge, hreason⟩ := ha
  refine ⟨fun st t ht => ?_, fun c hc => ?_, ?_⟩
  · -- the target was not on the path, so its milestone is not the one stamped before
    have hst : st ≠ target := by
      rintro rfl
      have hmem := ((h.milestones st).mp (by simp [ht])).2
      exact (List.nodup_append.mp hnew).2.2 st hmem st (List.mem_singleton.mpr rfl) rfl
    rw [announce_milestones]
    simp only [OrderRow.moveTo]
    split
    · rw [Function.update_of_ne hst]
      exact ht
    · exact ht
  · rw [announce_cancellation]
    show r.cancellation.or _ = _
    rw [hc]
    rfl
  · rw [announce_events]
    exact List.prefix_append _ _

end

/-- The invariant: there is no row and no path, or the row follows its path. -/
def Inv (h : History) : Prop :=
  (h.row = none ∧ h.path = []) ∨ ∃ r, h.row = some r ∧ Follows r h.path

/-- The path is extended by the new status, if by anything. -/
theorem path_of_step {h u : History} {w : Write} {r : OrderRow} (hs : step h w = some u)
    (hr : u.row = some r) : u.path = h.path ∨ u.path = h.path ++ [r.status] := by
  cases hs
  dsimp only at hr ⊢
  rw [hr]
  by_cases hst : statusOf (some r) = statusOf h.row
  · exact .inl (if_pos hst)
  · exact .inr (if_neg hst)

/-- **One step** keeps the invariant, and only extends what there is. -/
theorem Inv.step {h u : History} {w : Write} (hi : Inv h) (hs : step h w = some u) :
    Inv u ∧ h.path <+: u.path ∧ ∀ r, h.row = some r → ∃ r', u.row = some r' ∧ Keeps r r' := by
  cases hs
  have heff : Effect w.now h.row (w.writer.write h.row w.now) := effect_write w.writer
  generalize w.writer.write h.row w.now = row' at heff ⊢
  obtain ⟨row, path⟩ := h
  dsimp only at heff ⊢
  cases heff with
  | same =>
    simp only [if_true]
    exact ⟨hi, List.prefix_rfl, fun r hr => ⟨r, hr, .refl r⟩⟩
  | placed =>
    rcases hi with ⟨-, rfl⟩ | ⟨r, hr, -⟩
    · exact ⟨.inr ⟨_, rfl, follows_place _⟩, List.nil_prefix, fun r h => by cases h⟩
    · cases hr
  | rider =>
    rcases hi with ⟨hr, -⟩ | ⟨r, hr, hf⟩
    · cases hr
    · cases hr
      simp only [statusOf_some, if_true]
      refine ⟨.inr ⟨_, rfl, hf.rider _⟩, List.prefix_rfl, fun r hr => ⟨_, rfl, ?_⟩⟩
      cases hr
      exact ⟨fun _ _ h => h, fun _ h => h, List.prefix_rfl⟩
  | @applied r r' target ha =>
    rcases hi with ⟨hr, -⟩ | ⟨q, hr, hf⟩
    · cases hr
    · cases hr
      obtain ⟨hst, hnew⟩ := ha.status
      have hcond : ¬ statusOf (some r') = statusOf (some r) := fun h => hnew (Option.some.inj h)
      rw [if_neg hcond]
      have hpath := hf.applied ha
      simp only [statusOf_some, hst, Option.toList_some]
      exact ⟨.inr ⟨_, rfl, hpath⟩, List.prefix_append _ _, fun q hq => by
        cases hq
        exact ⟨_, rfl, ha.keeps hf⟩⟩

theorem inv_of_run {ws : List Write} {h u : History} (hi : Inv h)
    (hrun : Run step Always h ws u) :
    Inv u ∧ h.path <+: u.path ∧ ∀ r, h.row = some r → ∃ r', u.row = some r' ∧ Keeps r r' := by
  induction hrun with
  | nil => exact ⟨hi, List.prefix_rfl, fun r hr => ⟨r, hr, .refl r⟩⟩
  | snoc _ _ hs ih =>
    obtain ⟨hi, hpath, hkeep⟩ := ih
    obtain ⟨hi', hpath', hkeep'⟩ := hi.step hs
    refine ⟨hi', hpath.trans hpath', fun r hr => ?_⟩
    obtain ⟨r₁, hr₁, hk₁⟩ := hkeep r hr
    obtain ⟨r₂, hr₂, hk₂⟩ := hkeep' r₁ hr₁
    exact ⟨r₂, hr₂, hk₁.trans hk₂⟩

theorem inv_empty : Inv .empty := .inl ⟨rfl, rfl⟩

/-- **The order's row, whatever writes race on it**: it follows a path of the graph that
visits no status twice; its milestones, its events and its cancellation record are those
of the path; and from then on they stay what they are. -/
theorem lifecycle_of_run {ws : List Write} {h : History} (hrun : Run step Always .empty ws h) :
    (h.row = none → h.path = []) ∧
      ∀ r, h.row = some r → Follows r h.path ∧ h.path.Nodup ∧ r.events.Nodup ∧
        ∀ ws' u, Run step Always h ws' u →
          h.path <+: u.path ∧ ∃ r', u.row = some r' ∧ Keeps r r' := by
  obtain ⟨hi, -⟩ := inv_of_run inv_empty hrun
  refine ⟨fun hnone => ?_, fun r hr => ?_⟩
  · rcases hi with ⟨-, hpath⟩ | ⟨r, hr, -⟩
    · exact hpath
    · rw [hnone] at hr
      cases hr
  · rcases hi with ⟨hnone, -⟩ | ⟨q, hq, hf⟩
    · rw [hnone] at hr
      cases hr
    · obtain rfl : q = r := Option.some.inj (hq.symm.trans hr)
      refine ⟨hf, hf.nodup.1, hf.nodup.2, fun ws' u hu => ?_⟩
      obtain ⟨-, hpath, hkeep⟩ := inv_of_run (.inr ⟨q, hq, hf⟩) hu
      exact ⟨hpath, hkeep q hq⟩

/-- An order that its customer cancels in the kitchen, with attempts that come again and
a courier who comes too late. -/
def cancelledInKitchen : List Write :=
  [⟨.createOrder "h", 1⟩, ⟨.validateAndReserve, 2⟩, ⟨.validateAndReserve, 3⟩,
    ⟨.authorizePayment, 4⟩, ⟨.confirmOrder, 5⟩, ⟨.markAccepted, 6⟩, ⟨.setPreparing, 7⟩,
    ⟨.tryBeginCancel .customerCancelled, 8⟩, ⟨.markPickedUp, 9⟩,
    ⟨.finishCancel .customerCancelled, 10⟩, ⟨.finishCancel .customerCancelled, 11⟩]

theorem lifecycle_of_run_cancelled : ∃ h r, Run step Always .empty cancelledInKitchen h ∧
    h.row = some r ∧ r.cancellation = some (.customerCancelled, 8) ∧
    h.path = [.placed, .validated, .paymentCleared, .confirmed, .accepted, .preparing,
      .cancelling, .cancelled] ∧ Follows r h.path := by
  obtain ⟨h, hrun, hp⟩ : ∃ h, Run step Always .empty cancelledInKitchen h ∧
      decide (h.row.bind (·.cancellation) = some (.customerCancelled, 8) ∧
        h.path = [.placed, .validated, .paymentCleared, .confirmed, .accepted, .preparing,
          .cancelling, .cancelled]) = true :=
    exists_run_of_execOk (by decide)
  obtain ⟨hc, hpath⟩ := of_decide_eq_true hp
  obtain ⟨r, hr, hrc⟩ := Option.bind_eq_some_iff.mp hc
  exact ⟨h, r, hrun, hr, hrc, hpath, ((lifecycle_of_run hrun).2 r hr).1⟩

/-! ### The sagas write by these writers -/

/-- The row is one that the writers can have come to. -/
def Written (row : Option OrderRow) : Prop :=
  ∃ ws h, Run step Always .empty ws h ∧ h.row = row

theorem Written.write {row : Option OrderRow} (h : Written row) (w : Writer) (now : ℕ) :
    Written (w.write row now) := by
  obtain ⟨ws, h, hrun, rfl⟩ := h
  exact ⟨ws ++ [⟨w, now⟩], _, hrun.snoc trivial rfl, rfl⟩

/-- Where the unwind of a flow begins. -/
def Expects : Workflow.Pc → Prop
  | .beginCancel expected _ _ _ => ∃ from_ : UnwindFrom, from_.status = expected
  | _ => True

theorem expects_afterAnswer {pc : Workflow.Pc} (answer : Workflow.Answer)
    (ha : Workflow.activity pc ≠ none) : Expects (Workflow.afterAnswer pc answer) := by
  have hleads := Workflow.leads answer ha
  generalize Workflow.afterAnswer pc answer = next at hleads ⊢
  cases hleads with
  | unplaced => exact ⟨.placed, rfl⟩
  | declined => exact ⟨.validated, rfl⟩
  | _ => trivial

theorem expects_afterWait {p q : Workflow.Pos} {e : Workflow.Event}
    (h : Workflow.afterWait p e = some q) : Expects q.pc := by
  cases (Workflow.ends h).1 with
  | cancels _ hnext => exact hnext ▸ ⟨.confirmed, rfl⟩
  | @child how _ _ hnext => rw [hnext]; cases how <;> trivial
  | begins _ hnext | asked _ hnext | drained _ _ hnext | started _ _ hnext => rw [hnext]; trivial

/-- The unwind is begun only where the workflow says from where. -/
theorem pc_of_beginCancel {pc : Workflow.Pc} {expected : OrderStatus} {reason : CancelReason}
    (h : Workflow.activity pc = some (.beginCancel expected reason)) :
    ∃ void release, pc = .beginCancel expected reason void release := by
  cases pc with
  | beginCancel expected' reason' void release =>
    cases h
    exact ⟨void, release, rfl⟩
  | forward stage => cases stage <;> cases h
  | _ => cases h

theorem expects_move {cfg : Saga.Config} {k : OrderId} {w w' : Saga.World}
    {i i' : Durable.Inst Workflow.Pos Saga.Phase Workflow.Answer}
    {m : Durable.Move Saga.Input Workflow.Signal Workflow.Event} (h : Expects i.pos.pc)
    (hm : Durable.move Workflow.flow (Saga.worker cfg) k w i m = some (w', i')) :
    Expects i'.pos.pc := by
  rcases Durable.move_cases hm with ⟨_, _, _, _, -, -, -, -, rfl⟩ | ⟨-, ⟨-, -, rfl⟩ |
    ⟨a, answer, -, ha, -, rfl⟩ | ⟨_, -, -, -, rfl⟩ | ⟨_, -, -, -, rfl⟩ | ⟨s, -, rfl⟩ |
    ⟨e, pos, -, he, rfl⟩⟩
  · exact h
  · exact h
  · exact expects_afterAnswer answer (by rw [show Workflow.activity i.pos.pc = some a from ha]; simp)
  · trivial
  · show Expects (Workflow.flow.expired i.pos).pc
    simp only [Workflow.flow]
    split
    · next stage _ => cases stage <;> first | exact ⟨.placed, rfl⟩ | exact ⟨.validated, rfl⟩ |
        exact ⟨.paymentCleared, rfl⟩
    · exact h
  · show Expects (Workflow.onSignal i.pos s).pc
    rw [Workflow.onSignal_pc]
    exact h
  · exact expects_afterWait he

/-- The set-guarded cancel has two callers, each with a reason of its own. -/
def Writer.Issued : Writer → Prop
  | .tryBeginCancel reason => reason = .customerCancelled ∨ reason = .noRiderAvailable
  | _ => True

theorem reason_of_tryBeginCancel {pc : Workflow.Pc} {reason : CancelReason}
    (h : Workflow.activity pc = some (.tryBeginCancel reason)) :
    reason = .customerCancelled ∨ reason = .noRiderAvailable := by
  cases pc with
  | customerCancel =>
    cases h
    exact .inl rfl
  | noRiderCancel =>
    cases h
    exact .inr rfl
  | forward stage => cases stage <;> cases h
  | _ => cases h

/-- The writer of a move that is not the saga's. -/
def ofOtherMove : Saga.OtherMove → Writer
  | .preparing => .setPreparing
  | .ready => .setReady
  | .pickedUp => .markPickedUp
  | .delivered => .markDelivered

section

variable {cfg : Saga.Config} {w w' : Saga.World} {order : OrderId}

/-! What the writers preserve of a row holds of every row of the sagas. -/

variable {P : OrderId → Option OrderRow → Prop}

/-- A transaction on one row. -/
theorem rows_setOrder {row : Option OrderRow} (h : ∀ o, P o (w.orders o)) (hrow : P order row) :
    ∀ o, P o ((w.setOrder order row).orders o) := by
  intro o
  simp only [Saga.World.setOrder]
  by_cases ho : o = order
  · subst ho
    rw [Function.update_self]
    exact hrow
  · rw [Function.update_of_ne ho]
    exact h o

variable (hP : ∀ o row (writer : Writer) now, writer.Issued → P o row → P o (writer.write row now))

include hP

/-- A guarded move of the worker is the transaction of its writer. -/
theorem rows_moveRow (writer : Writer) (hissued : writer.Issued) (h : ∀ o, P o (w.orders o))
    {expected target : OrderStatus} {event : Option EventType} {reason : Option CancelReason}
    {now : ℕ} {answer : Workflow.Answer}
    (hw : ∀ row, writer.write row now = moved row expected target event reason now) :
    ∀ o, P o ((Saga.moveRow w order expected target event reason now answer).1.orders o) := by
  have hset := hP order _ writer now hissued (h order)
  rw [hw, moved] at hset
  unfold Saga.moveRow
  split
  · next row applied hok =>
    rw [hok] at hset
    exact rows_setOrder h hset
  · exact h

theorem rows_work {activity : Workflow.Activity} {phase : Saga.Phase} {input : Saga.Input}
    {t : Durable.Attempt Saga.Phase Workflow.Answer} (h : ∀ o, P o (w.orders o))
    (hexp : ∀ expected reason, activity = .beginCancel expected reason →
      ∃ start : UnwindFrom, start.status = expected)
    (htry : ∀ reason, activity = .tryBeginCancel reason →
      reason = .customerCancelled ∨ reason = .noRiderAvailable)
    (hwork : Saga.work cfg order activity phase input w = some (w', t)) :
    ∀ o, P o (w'.orders o) := by
  -- the move that a writer makes, read off the result of the attempt
  have hmove : ∀ (writer : Writer) {expected target event reason answer}, writer.Issued →
      (∀ row, writer.write row input.now = moved row expected target event reason input.now) →
      some (Saga.moveRow w order expected target event reason input.now answer) = some (w', t) →
      ∀ o, P o (w'.orders o) := by
    intro writer expected target event reason answer hissued hw he
    have hworld : (Saga.moveRow w order expected target event reason input.now answer).1 = w' :=
      congrArg Prod.fst (Option.some.inj he)
    rw [← hworld]
    exact rows_moveRow hP writer hissued h hw
  unfold Saga.work at hwork
  split at hwork
  · cases hwork
    unfold Saga.createOrder
    split
    · next hnone =>
      have hset := hP order _ (.createOrder (cfg.cart order).requestHash) 0 trivial (h order)
      rw [hnone] at hset
      exact rows_setOrder h hset
    · exact h
  · have hr : (Saga.reserve cfg w order input.now).1 = w' :=
      congrArg Prod.fst (Option.some.inj hwork)
    rw [← hr]
    unfold Saga.reserve
    split <;> exact h
  · exact hmove .validateAndReserve trivial (fun _ => rfl) hwork
  · cases hwork
    exact h
  · exact hmove .authorizePayment trivial (fun _ => rfl) hwork
  · exact hmove .confirmOrder trivial (fun _ => rfl) hwork
  · exact hmove .markAccepted trivial (fun _ => rfl) hwork
  · next expected reason =>
    obtain ⟨start, rfl⟩ := hexp expected reason rfl
    exact hmove (.beginCancel start reason) trivial (fun _ => rfl) hwork
  · next reason =>
    cases hwork
    exact rows_setOrder h (hP order _ (.tryBeginCancel reason) input.now (htry reason rfl) (h order))
  · cases hwork
    exact h
  · cases hwork
    exact h
  · next reason => exact hmove (.finishCancel reason) trivial (fun _ => rfl) hwork
  · cases hwork
    exact h
  · cases hwork
    exact h
  · cases hwork
    exact h
  · exact hmove .settleOrder trivial (fun _ => rfl) hwork
  · cases hwork

theorem rows_environment {e : Saga.EnvEvent} (h : ∀ o, P o (w.orders o))
    (he : Saga.environment cfg e w = some w') : ∀ o, P o (w'.orders o) := by
  cases e with
  | otherMove order m now =>
    cases he
    have hissued : (ofOtherMove m).Issued := by cases m <;> trivial
    exact rows_moveRow hP (ofOtherMove m) hissued h fun row => by cases m <;> rfl
  | recordRider order rider =>
    cases he
    exact rows_setOrder h (hP order _ (.recordRider rider) 0 trivial (h order))
  | selectOverdue now orders =>
    simp only [Saga.environment] at he
    split at he
    · cases he
      exact h
    · cases he
  | expireOne =>
    simp only [Saga.environment] at he
    split at he
    · cases he
    · cases he
      exact h
  | setStock | setCapacity | provision =>
    cases he
    exact h

omit hP

/-- No unwind begins anywhere else. -/
theorem expects_run {is : List Saga.SagaLabel} {s u : Saga.System} {k : OrderId}
    (h : Expects (s.insts k).pos.pc) (hrun : Run (Saga.step cfg) Always s is u) :
    Expects (u.insts k).pos.pc := by
  refine hrun.invariant (I := fun s => Expects (s.insts k).pos.pc) h ?_
  intro s l u hexp _ hstep
  cases l with
  | flow j m =>
    obtain ⟨⟨w', i'⟩, hm, rfl⟩ := Option.map_eq_some_iff.mp hstep
    show Expects (Function.update s.insts j i' k).pos.pc
    by_cases hj : k = j
    · subst hj
      rw [Function.update_self]
      exact expects_move hexp hm
    · rw [Function.update_of_ne hj]
      exact hexp
  | env e =>
    obtain ⟨w', -, rfl⟩ := Option.map_eq_some_iff.mp hstep
    exact hexp

theorem expects_of_run {is : List Saga.SagaLabel} {s : Saga.System}
    (hrun : Run (Saga.step cfg) Always .empty is s) (k : OrderId) :
    Expects (s.insts k).pos.pc := by
  have h0 : Expects (Saga.System.empty.insts k).pos.pc := True.intro
  exact expects_run h0 hrun

include hP in
/-- **The sagas write by the writers**: what each of them preserves holds of all rows. -/
theorem rows_of_run {is : List Saga.SagaLabel} {s u : Saga.System}
    (hexp : ∀ k, Expects (s.insts k).pos.pc) (h : ∀ o, P o (s.world.orders o))
    (hrun : Run (Saga.step cfg) Always s is u) : ∀ o, P o (u.world.orders o) := by
  induction hrun with
  | nil => exact h
  | @snoc is s u l hrun _ hstep hrows =>
    cases l with
    | flow k m =>
      obtain ⟨⟨w', i'⟩, hm, rfl⟩ := Option.map_eq_some_iff.mp hstep
      rcases Durable.move_cases hm with ⟨input, a, phase, attempt, -, ha, -, hw, -⟩ | ⟨rfl, -⟩
      · refine rows_work hP hrows (fun expected reason hact => ?_) (fun reason hact => ?_) hw
        · have hk := expects_run (hexp k) hrun
          subst hact
          obtain ⟨void, release, hpc⟩ := pc_of_beginCancel ha
          rwa [hpc] at hk
        · subst hact
          exact reason_of_tryBeginCancel ha
      · exact hrows
    | env e =>
      obtain ⟨w', he, rfl⟩ := Option.map_eq_some_iff.mp hstep
      exact rows_environment hP hrows he

/-- **Every row of the sagas is a row of these writers**, so it has a lifecycle. -/
theorem written_of_run {is : List Saga.SagaLabel} {s : Saga.System}
    (hrun : Run (Saga.step cfg) Always .empty is s) (order : OrderId) :
    Written (s.world.orders order) := by
  have h0 : ∀ o : OrderId, Written (Saga.System.empty.world.orders o) :=
    fun _ => ⟨[], .empty, .nil, rfl⟩
  have hexp : ∀ k : OrderId, Expects (Saga.System.empty.insts k).pos.pc := fun _ => True.intro
  exact rows_of_run (P := fun _ row => Written row)
    (fun _ _ writer now _ h => h.write writer now) hexp h0 hrun order

end

end Lifecycle

end Order
