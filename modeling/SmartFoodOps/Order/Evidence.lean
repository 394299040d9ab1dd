/-
What an order's row tells about its money.

The sagas and the payment service with its processor, side by side: an authorization is
a request to the service, and its activity reads the answer of such a request.  The row
says why an order was cancelled, and three of the reasons come before any money.

* `System`, `step` — the sagas over the gateway;
* `Change`, `change_work` — what one step of an attempt does to what the row tells;
* `Known`, `Told` — what the workflow, and what the row, knows about the authorization;
* `untaken_of_run` — an order that was cancelled before the money has no authorization
  that succeeded, and was never confirmed;
* `confirmed_of_path` — a row that has been anywhere behind CONFIRMED has been confirmed;
* `exists_path_of_run` — and every row of a run follows a path.
-/
import SmartFoodOps.Order.Hold
import SmartFoodOps.Order.Lifecycle

open Machine Durable
open Dispatch (OrderId)
open Payment (Gateway GatewayEvent Backed)

namespace Order

namespace Evidence

open Workflow
open Saga (Input MoneyCall OtherMove PaymentReply Phase SagaLabel World EnvEvent moveRow)
open Hold (Later Untouched)

/-! ### The sagas over the gateway -/

structure Config where
  saga : Saga.Config
  payment : Payment.Config

structure System where
  saga : Saga.System
  gateway : Gateway

def System.empty : System := ⟨.empty, .empty⟩

inductive Label
  | saga (l : SagaLabel)
  /-- The authorization of an order is requested. -/
  | authorize (order : OrderId)
  /-- A void, a capture or a refund is. -/
  | lifecycle (kind : Payment.Lifecycle) (order : OrderId)
  | gateway (e : GatewayEvent)
  deriving DecidableEq

/-- The workflow stands at its authorization, and the row has not been moved yet. -/
def authorizing (i : Inst Pos Phase Answer) : Bool :=
  i.pos.pc = .forward .validated && i.attempt = .working .first

/-- The request that `AUTHORIZE_PAYMENT` makes. -/
def authorization (cfg : Saga.Config) (order : OrderId) : Payment.Call :=
  let cart := cfg.cart order
  .authorize order cart.amountCents cart.currency cart.cardToken

/-- A request has been answered with the status code. -/
def answeredWith (g : Gateway) (call : Payment.Call) (statusCode : ℕ) : Bool :=
  g.payment.procs.any fun p => p.call = call && match p.op with
    | .answered outcome => outcome.statusCode = statusCode
    | _ => false

/-- What the client may have read; every other end of a request is retried. -/
def replied (g : Gateway) (call : Payment.Call) : PaymentReply → Bool
  | .ok => answeredWith g call 200
  | .declined => answeredWith g call 402
  | .stateConflict => true

/-- An authorization reads its answer from the service. -/
def reads (cfg : Config) (s : System) : SagaLabel → Bool
  | .flow order (.work input) =>
    !authorizing (s.saga.insts order) ||
      replied s.gateway (authorization cfg.saga order) input.payment
  | _ => true

def step (cfg : Config) (s : System) : Label → Option System
  | .saga l =>
    if reads cfg s l then (Saga.step cfg.saga s.saga l).map fun saga => { s with saga := saga }
    else none
  | .authorize order =>
    if authorizing (s.saga.insts order) then
      some { s with gateway := s.gateway.request (authorization cfg.saga order) }
    else none
  | .lifecycle kind order => some { s with gateway := s.gateway.request (.lifecycle kind order) }
  | .gateway e => (Payment.gatewayStep cfg.payment e s.gateway).map fun g => { s with gateway := g }

/-- What the sagas do here, they can do by themselves. -/
theorem saga_run {cfg : Config} {ls : List Label} {s : System}
    (h : Run (step cfg) Always .empty ls s) :
    ∃ is, Run (Saga.step cfg.saga) Always .empty is s.saga := by
  induction h with
  | nil => exact ⟨[], .nil⟩
  | @snoc ls s u l _ _ hs ih =>
    obtain ⟨is, ih⟩ := ih
    cases l with
    | saga l =>
      simp only [step] at hs
      split at hs
      · obtain ⟨saga, hsaga, rfl⟩ := Option.map_eq_some_iff.mp hs
        exact ⟨is ++ [l], ih.snoc trivial hsaga⟩
      · cases hs
    | authorize order =>
      simp only [step] at hs
      split at hs
      · cases hs
        exact ⟨is, ih⟩
      · cases hs
    | lifecycle kind order =>
      cases hs
      exact ⟨is, ih⟩
    | gateway e =>
      obtain ⟨g, -, rfl⟩ := Option.map_eq_some_iff.mp hs
      exact ⟨is, ih⟩

/-! ### What the row tells -/

/-- Whether the order has been CONFIRMED, and why it was cancelled. -/
structure Account where
  confirmed : Bool
  reason : Option CancelReason
  deriving DecidableEq, Repr

def confirmedOf (row : Option OrderRow) : Bool := row.any fun r => (r.milestones .confirmed).isSome

def reasonOf (row : Option OrderRow) : Option CancelReason :=
  row.bind fun r => r.cancellation.map Prod.fst

def account (order : OrderId) (w : World) : Account :=
  ⟨confirmedOf (w.orders order), reasonOf (w.orders order)⟩

section

variable {cfg : Saga.Config} {w w' : World} {order other : OrderId} {row : Option OrderRow}
  {expected target : OrderStatus} {event : Option EventType} {reason : Option CancelReason}
  {now : ℕ} {answer : Answer}

theorem orders_moveRow :
    (moveRow w order expected target event reason now answer).1.orders order =
      Lifecycle.moved (w.orders order) expected target event reason now := by
  unfold moveRow Lifecycle.moved
  rcases transition (w.orders order) expected target event reason now with e | ⟨row, applied⟩
  · rfl
  · exact Function.update_self order row w.orders

theorem orders_moveRow_ne (ho : other ≠ order) :
    (moveRow w order expected target event reason now answer).1.orders other = w.orders other := by
  unfold moveRow
  rcases transition (w.orders order) expected target event reason now with e | ⟨row, applied⟩
  · rfl
  · exact Function.update_of_ne ho row w.orders

/-- A move to anywhere else does not confirm the order. -/
theorem confirmedOf_moved (h : target ≠ .confirmed) :
    confirmedOf (Lifecycle.moved row expected target event reason now) = confirmedOf row := by
  rcases @Lifecycle.moved_cases row now expected target event reason with he | ⟨r, rfl, -, he⟩
  · rw [he]
  · rw [he]
    unfold confirmedOf
    rw [Option.any_some, Option.any_some, Lifecycle.announce_milestones]
    unfold OrderRow.moveTo
    dsimp only
    split
    · rw [Function.update_of_ne h.symm]
    · rfl

/-- A move records its reason, unless there is one. -/
theorem reasonOf_moved : reasonOf (Lifecycle.moved row expected target event reason now) =
    reasonOf row ∨ reasonOf row = none ∧
      reasonOf (Lifecycle.moved row expected target event reason now) = reason := by
  rcases @Lifecycle.moved_cases row now expected target event reason with he | ⟨r, rfl, -, he⟩
  · rw [he]
    exact .inl rfl
  · rw [he]
    unfold reasonOf
    rw [Option.bind_some, Option.bind_some, Lifecycle.announce_cancellation]
    have hcancellation : (r.moveTo target now).cancellation = r.cancellation := rfl
    rw [hcancellation]
    rcases r.cancellation with _ | c
    · refine .inr ⟨rfl, ?_⟩
      cases reason <;> rfl
    · exact .inl rfl

/-- The reason that an activity records. -/
def records : Activity → Option CancelReason
  | .beginCancel _ reason | .tryBeginCancel reason | .finishCancel reason => some reason
  | _ => none

/-- What one step of an attempt can do to the account of its order. -/
structure Change (activity : Activity) (v v' : Account) : Prop where
  confirmed : v'.confirmed = v.confirmed ∨ activity = .confirmOrder
  reason : v'.reason = v.reason ∨ v.reason = none ∧ v'.reason = records activity

variable {activity : Activity} {phase : Phase} {input : Input} {t : Attempt Phase Answer}

theorem Change.refl (v : Account) : Change activity v v := ⟨.inl rfl, .inl rfl⟩

theorem change_moveRow (hr : reason = records activity)
    (ht : target = .confirmed → activity = .confirmOrder)
    (h : moveRow w order expected target event reason now answer = (w', t)) :
    Change activity (account order w) (account order w') := by
  have hw : (moveRow w order expected target event reason now answer).1 = w' := by rw [h]
  unfold account
  rw [← hw, orders_moveRow]
  constructor
  · by_cases htarget : target = .confirmed
    · exact .inr (ht htarget)
    · exact .inl (confirmedOf_moved htarget)
  · rw [← hr]
    exact reasonOf_moved

theorem account_setOrder {row : Option OrderRow} :
    account order (w.setOrder order row) = ⟨confirmedOf row, reasonOf row⟩ := by
  unfold account
  rw [World.setOrder]
  dsimp only
  rw [Function.update_self]

theorem account_setOrder_ne {row : Option OrderRow} (ho : other ≠ order) :
    account other (w.setOrder order row) = account other w := by
  unfold account
  rw [World.setOrder]
  dsimp only
  rw [Function.update_of_ne ho]

theorem change_tryBeginCancel {reason : CancelReason}
    (h : Saga.tryBeginCancel w order reason now = (w', t)) :
    Change (.tryBeginCancel reason) (account order w) (account order w') := by
  unfold Saga.tryBeginCancel beginCancelFrom at h
  rcases hrow : w.orders order with _ | r
  · rw [hrow] at h
    cases h
    rw [account_setOrder, account, hrow]
    exact .refl _
  · rw [hrow] at h
    by_cases hin : r.status ∈ cancellableKitchenStates
    · simp only [if_pos hin] at h
      cases h
      rw [account_setOrder, account, hrow]
      refine ⟨.inl rfl, ?_⟩
      unfold reasonOf OrderRow.recordCancellation
      rw [Option.bind_some, Option.bind_some]
      have hcancellation : (r.moveTo .cancelling now).cancellation = r.cancellation := rfl
      rw [hcancellation]
      rcases r.cancellation with _ | c
      · exact .inr ⟨rfl, rfl⟩
      · exact .inl rfl
    · simp only [if_neg hin] at h
      cases h
      rw [account_setOrder, account, hrow]
      exact .refl _

/-- **One step of an attempt**, as its order's account sees it. -/
theorem change_work (h : Saga.work cfg order activity phase input w = some (w', t)) :
    Change activity (account order w) (account order w') := by
  unfold Saga.work at h
  split at h
  · cases h
    unfold Saga.createOrder
    split
    · next hnone =>
      rw [account_setOrder, account, hnone]
      exact .refl _
    · exact .refl _
  · have h := Option.some.inj h
    unfold Saga.reserve at h
    split at h <;> cases h <;> exact .refl _
  · exact change_moveRow rfl (by simp) (Option.some.inj h)
  · cases h
    exact .refl _
  · exact change_moveRow rfl (by simp) (Option.some.inj h)
  · exact change_moveRow rfl (fun _ => rfl) (Option.some.inj h)
  · exact change_moveRow rfl (by simp) (Option.some.inj h)
  · exact change_moveRow rfl (by simp) (Option.some.inj h)
  · exact change_tryBeginCancel (Option.some.inj h)
  · cases h
    exact .refl _
  · cases h
    exact .refl _
  · exact change_moveRow rfl (by simp) (Option.some.inj h)
  · cases h
    exact .refl _
  · cases h
    exact .refl _
  · cases h
    exact .refl _
  · exact change_moveRow rfl (by simp) (Option.some.inj h)
  · cases h

/-- No worker touches the account of another order. -/
theorem account_frame (h : Saga.work cfg order activity phase input w = some (w', t))
    (ho : other ≠ order) : account other w' = account other w := by
  have hmove : ∀ {expected target event reason answer},
      moveRow w order expected target event reason input.now answer = (w', t) →
      account other w' = account other w := by
    intro expected target event reason answer hm
    have hw : (moveRow w order expected target event reason input.now answer).1 = w' := by rw [hm]
    unfold account
    rw [← hw, orders_moveRow_ne ho]
  unfold Saga.work at h
  split at h
  · cases h
    unfold Saga.createOrder
    split
    · exact account_setOrder_ne ho
    · rfl
  · have h := Option.some.inj h
    unfold Saga.reserve at h
    split at h <;> cases h <;> rfl
  · exact hmove (Option.some.inj h)
  · cases h
    rfl
  · exact hmove (Option.some.inj h)
  · exact hmove (Option.some.inj h)
  · exact hmove (Option.some.inj h)
  · exact hmove (Option.some.inj h)
  · cases h
    exact account_setOrder_ne ho
  · cases h
    rfl
  · cases h
    rfl
  · exact hmove (Option.some.inj h)
  · cases h
    rfl
  · cases h
    rfl
  · cases h
    rfl
  · exact hmove (Option.some.inj h)
  · cases h

/-- The environment leaves every account. -/
theorem account_environment {e : EnvEvent} (h : Saga.environment cfg e w = some w') :
    account order w' = account order w := by
  cases e with
  | otherMove o m now =>
    cases h
    unfold account
    by_cases ho : order = o
    · subst ho
      rw [orders_moveRow, confirmedOf_moved (by cases m <;> simp [OtherMove.target])]
      rcases @reasonOf_moved (w.orders order) m.expected m.target (some m.event) none now with
        he | ⟨hnone, he⟩
      · rw [he]
      · rw [he, hnone]
    · rw [orders_moveRow_ne ho]
  | recordRider o rider =>
    cases h
    by_cases ho : order = o
    · subst ho
      rw [account_setOrder]
      unfold account
      rcases hrow : w.orders order with _ | r <;> rfl
    · exact account_setOrder_ne ho
  | selectOverdue now orders =>
    simp only [Saga.environment] at h
    split at h
    · cases h
      rfl
    · cases h
  | expireOne =>
    simp only [Saga.environment] at h
    split at h
    · cases h
    · cases h
      rfl
  | setStock | setCapacity | provision =>
    cases h
    rfl

end

/-! ### What is known of the authorization -/

/-- The cancellations that come before any money: a refusal of inventory, or of payment. -/
def beforeMoney : CancelReason → Bool
  | .paymentDeclined | .itemUnavailable | .atCapacity => true
  | _ => false

/-- No authorization was requested, or the processor has declined it; and nobody has confirmed
the order. -/
def Untaken (g : Gateway) (order : OrderId) (v : Account) : Prop :=
  (Untouched g order ∨ g.truth.Declined order) ∧ v.confirmed = false

/-- What the workflow knows of the money, await by await. -/
def Known (g : Gateway) (order : OrderId) (pc : Pc) (t : Attempt Phase Answer) (v : Account) :
    Prop :=
  match pc with
  | .createOrder | .forward .placed => Untouched g order ∧ v = ⟨false, none⟩
  | .forward .validated =>
    v = ⟨false, none⟩ ∧ ∀ a, t = .answered a → a = .ok ∨ g.truth.Declined order
  | .forward .paymentCleared => v.reason = none
  | .beginCancel _ reason _ _ | .voidAuthorization reason _ | .releaseReservation reason
  | .finishCancel reason => beforeMoney reason = true → Untaken g order v
  | _ => True

/-- What the row says about the money, it says truly. -/
def Told (g : Gateway) (order : OrderId) (v : Account) : Prop :=
  ∀ reason, v.reason = some reason → beforeMoney reason = true → Untaken g order v

section

variable {g g' : Gateway} {order : OrderId} {pc : Pc} {t : Attempt Phase Answer} {v v' : Account}

theorem Untaken.mono (hl : Later g g' order) (h : Untaken g order v) : Untaken g' order v :=
  ⟨h.1.imp hl.untouched hl.truth.declined, h.2⟩

theorem Told.mono (hl : Later g g' order) (h : Told g order v) : Told g' order v :=
  fun reason hr hb => (h reason hr hb).mono hl

theorem Known.mono (hl : Later g g' order) (h : Known g order pc t v) : Known g' order pc t v := by
  cases pc with
  | createOrder => exact ⟨hl.untouched h.1, h.2⟩
  | forward stage =>
    cases stage with
    | placed => exact ⟨hl.untouched h.1, h.2⟩
    | validated => exact ⟨h.1, fun a ha => (h.2 a ha).imp_right hl.truth.declined⟩
    | paymentCleared => exact h
  | beginCancel => exact fun hb => (h hb).mono hl
  | voidAuthorization => exact fun hb => (h hb).mono hl
  | releaseReservation => exact fun hb => (h hb).mono hl
  | finishCancel => exact fun hb => (h hb).mono hl
  | _ => trivial

/-- A fresh attempt knows no answer. -/
theorem Known.restart (h : Known g order pc t v) : Known g order pc (.working .first) v := by
  cases pc with
  | forward stage =>
    cases stage with
    | validated => exact ⟨h.1, by rintro a ⟨⟩⟩
    | _ => exact h
  | _ => exact h

/-- A change that neither confirms the order nor records a reason is none. -/
theorem Change.eq {activity : Activity} (hc : Change activity v v')
    (hconfirm : activity ≠ .confirmOrder) (hrecords : records activity = none) : v' = v := by
  have hreason : v'.reason = v.reason := by
    rcases hc.reason with hr | ⟨hnone, hr⟩
    · exact hr
    · rw [hr, hrecords, hnone]
  obtain ⟨confirmed, reason⟩ := v
  obtain ⟨confirmed', reason'⟩ := v'
  obtain rfl : confirmed' = confirmed := hc.confirmed.resolve_right hconfirm
  obtain rfl : reason' = reason := hreason
  rfl

theorem Change.untaken {activity : Activity} (hc : Change activity v v')
    (hconfirm : activity ≠ .confirmOrder) (h : Untaken g order v) : Untaken g order v' :=
  ⟨h.1, (hc.confirmed.resolve_right hconfirm).trans h.2⟩

/-- One step of an attempt: what it records is known. -/
theorem Known.work {activity : Activity} {phase : Phase} (h : Known g order pc (.working phase) v)
    (htold : Told g order v) (ha : Workflow.activity pc = some activity)
    (hc : Change activity v v')
    (hdeclined : activity = .authorizePayment →
      ∀ a, t = .answered a → a = .ok ∨ g.truth.Declined order) :
    Known g order pc t v' ∧ Told g order v' := by
  -- an activity with a reason leaves the row told, if the reason is known to be true
  have hrecords : ∀ reason, records activity = some reason →
      (beforeMoney reason = true → Untaken g order v) → activity ≠ .confirmOrder →
      Told g order v' := by
    intro reason hrec hknown hconfirm r hr hb
    rcases hc.reason with he | ⟨-, he⟩
    · exact hc.untaken hconfirm (htold r (he ▸ hr) hb)
    · rw [he, hrec] at hr
      cases hr
      exact hc.untaken hconfirm (hknown hb)
  have hsame : activity ≠ .confirmOrder → records activity = none →
      (v' = v → Known g order pc t v') → Known g order pc t v' ∧ Told g order v' := by
    intro hconfirm hrec hgo
    have hv := hc.eq hconfirm hrec
    exact ⟨hgo hv, hv ▸ htold⟩
  cases pc with
  | createOrder =>
    cases ha
    exact hsame (by simp) rfl fun hv => hv ▸ h
  | forward stage =>
    cases ha
    cases stage with
    | placed => exact hsame (by simp [forwardActivity]) rfl fun hv => hv ▸ h
    | validated =>
      exact hsame (by simp [forwardActivity]) rfl fun hv => ⟨hv.trans h.1, hdeclined rfl⟩
    | paymentCleared =>
      have hreason : v'.reason = none := by
        rcases hc.reason with hr | ⟨-, hr⟩
        · exact hr.trans h
        · exact hr
      refine ⟨hreason, fun r hr => ?_⟩
      rw [hreason] at hr
      cases hr
  | beginCancel expected reason void release =>
    cases ha
    exact ⟨fun hb => hc.untaken (by simp) (h hb), hrecords reason rfl h (by simp)⟩
  | finishCancel reason =>
    cases ha
    exact ⟨fun hb => hc.untaken (by simp) (h hb), hrecords reason rfl h (by simp)⟩
  | voidAuthorization reason release =>
    cases ha
    exact hsame (by simp) rfl fun hv => hv ▸ h
  | releaseReservation reason =>
    cases ha
    exact hsame (by simp) rfl fun hv => hv ▸ h
  | customerCancel =>
    cases ha
    exact ⟨trivial, hrecords _ rfl (by rintro ⟨⟩) (by simp)⟩
  | noRiderCancel =>
    cases ha
    exact ⟨trivial, hrecords _ rfl (by rintro ⟨⟩) (by simp)⟩
  | markAccepted =>
    cases ha
    exact hsame (by simp) rfl fun _ => trivial
  | cancelDispatch =>
    cases ha
    exact hsame (by simp) rfl fun _ => trivial
  | capturePayment =>
    cases ha
    exact hsame (by simp) rfl fun _ => trivial
  | settleOrder =>
    cases ha
    exact hsame (by simp) rfl fun _ => trivial
  | _ => cases ha

theorem known_unwind {reason : CancelReason} {void release : Bool}
    (h : beforeMoney reason = true → Untaken g order v) :
    Known g order (unwind reason void release) t v := by
  cases void <;> cases release <;> exact h

/-- The result of an activity. -/
theorem Known.report {answer : Answer} (h : Known g order pc (.answered answer) v)
    (ha : Workflow.activity pc ≠ none) :
    Known g order (afterAnswer pc answer) (.working .first) v := by
  cases pc with
  | createOrder => exact h
  | forward stage =>
    cases stage with
    | placed =>
      by_cases hans : answer = .ok
      · subst hans
        exact ⟨h.2, by rintro a ⟨⟩⟩
      · simp only [afterAnswer, afterForward, hans, if_false]
        exact fun _ => ⟨.inl h.1, by rw [h.2]⟩
    | validated =>
      by_cases hans : answer = .ok
      · subst hans
        show v.reason = none
        rw [h.1]
      · simp only [afterAnswer, afterForward, hans, if_false]
        exact fun _ => ⟨.inr ((h.2 answer rfl).resolve_left hans), by rw [h.1]⟩
    | paymentCleared => trivial
  | beginCancel expected reason void release => exact known_unwind h
  | voidAuthorization reason release =>
    cases release <;> exact h
  | releaseReservation reason => exact h
  | finishCancel reason => trivial
  | cancelDispatch =>
    show Known g order (unwind .noRiderAvailable true true) _ v
    exact known_unwind (by rintro ⟨⟩)
  | customerCancel | noRiderCancel =>
    simp only [afterAnswer]
    split <;> trivial
  | returned result => exact absurd rfl ha
  | _ => trivial

/-- The end of a wait: the restaurants, the couriers and the customers come after the money. -/
theorem known_event {p p' : Pos} {e : Event} (he : afterWait p e = some p') :
    Known g order p'.pc t v := by
  cases (ends he).1 with
  | cancels _ hnext hreason => rw [hnext]; rcases hreason with rfl | rfl | rfl <;> rintro ⟨⟩
  | drained _ _ hnext => rw [hnext]; rintro ⟨⟩
  | @child how _ _ hnext => rw [hnext]; cases how <;> trivial
  | begins _ hnext | asked _ hnext | started _ _ hnext => rw [hnext]; trivial

/-- An answer 402 is backed by the processor's decline. -/
theorem declined_of_replied {cfg : Saga.Config} (hb : Backed g)
    (h : replied g (authorization cfg order) .declined = true) : g.truth.Declined order := by
  obtain ⟨p, hp, ha⟩ := List.any_eq_true.mp h
  rw [Bool.and_eq_true, decide_eq_true_eq] at ha
  obtain ⟨hcall, hanswer⟩ := ha
  obtain ⟨pid, hpid⟩ := List.getElem?_of_mem hp
  have hop := hb.procs pid p hpid
  split at hanswer
  · next outcome hanswered =>
    rw [hanswered, hcall] at hop
    exact hop (of_decide_eq_true hanswer)
  · cases hanswer

/-- What an authorization may answer. -/
theorem answer_of_authorize {cfg : Saga.Config} {w w' : World} {phase : Phase} {input : Input}
    (h : Saga.work cfg order .authorizePayment phase input w = some (w', t)) :
    ∀ a, t = .answered a → a = .ok ∨ phase = .first ∧ input.payment = .declined := by
  rintro a rfl
  cases phase with
  | first =>
    have h := congrArg Prod.snd (Option.some.inj h)
    unfold Saga.authorize at h
    dsimp only at h
    split at h
    · cases h
    · next hd =>
      exact .inr ⟨rfl, hd⟩
    · cases h
  | second =>
    have h := congrArg Prod.snd (Option.some.inj h)
    unfold moveRow at h
    split at h
    · cases h
      exact .inl rfl
    · cases h

theorem pc_of_authorize (h : Workflow.activity pc = some .authorizePayment) :
    pc = .forward .validated := by
  cases pc with
  | forward stage =>
    cases stage with
    | validated => rfl
    | _ => cases h
  | _ => cases h

/-- **One move of the workflow** of the order itself. -/
theorem known_own {cfg : Config} {s : System} {w' : World} {i' : Inst Pos Phase Answer}
    {m : Move Input Signal Event} (hb : Backed s.gateway)
    (h : Known s.gateway order (s.saga.insts order).pos.pc (s.saga.insts order).attempt
      (account order s.saga.world))
    (htold : Told s.gateway order (account order s.saga.world))
    (hreads : reads cfg s (.flow order m) = true)
    (hm : move flow (Saga.worker cfg.saga) order s.saga.world (s.saga.insts order) m =
      some (w', i')) :
    Known s.gateway order i'.pos.pc i'.attempt (account order w') ∧
      Told s.gateway order (account order w') := by
  rcases move_cases hm with ⟨input, a, phase, attempt, rfl, ha, hp, hw, rfl⟩ | ⟨rfl, hrest⟩
  · rw [hp] at h
    have hw : Saga.work cfg.saga order a phase input s.saga.world = some (w', attempt) := hw
    refine h.work htold ha (change_work hw) fun hauth x hx => ?_
    subst hauth
    refine (answer_of_authorize hw x hx).imp_right fun hanswer => ?_
    obtain ⟨rfl, hdeclined⟩ := hanswer
    have hat : authorizing (s.saga.insts order) = true := by
      unfold authorizing
      rw [pc_of_authorize ha, hp]
      rfl
    have hreads : (!authorizing (s.saga.insts order) ||
        replied s.gateway (authorization cfg.saga order) input.payment) = true := hreads
    rw [hat, Bool.not_true, Bool.false_or, hdeclined] at hreads
    exact declined_of_replied hb hreads
  · refine ⟨?_, htold⟩
    rcases hrest with ⟨-, -, rfl⟩ | ⟨a, answer, -, ha, hr, rfl⟩ | ⟨a, -, -, -, rfl⟩ |
      ⟨a, -, -, hbound, rfl⟩ | ⟨x, -, rfl⟩ | ⟨e, pos, -, he, rfl⟩
    · exact h.restart
    · rw [hr] at h
      refine h.report ?_
      rw [show Workflow.activity (s.saga.insts order).pos.pc = some a from ha]
      simp
    · trivial
    · cases hpc : (s.saga.insts order).pos.pc with
      | forward stage =>
        rw [Inst.enter_pos, Inst.enter_attempt]
        simp only [flow, hpc]
        rintro ⟨⟩
      | _ => simp [flow, isForward, hpc] at hbound
    · simpa [flow] using h
    · exact known_event he

end

/-! ### Runs -/

/-- In every order, what the workflow knows and what the row says of the money is true. -/
def Inv (s : System) : Prop :=
  Backed s.gateway ∧ ∀ order,
    Known s.gateway order (s.saga.insts order).pos.pc (s.saga.insts order).attempt
        (account order s.saga.world) ∧
      Told s.gateway order (account order s.saga.world)

theorem Inv.saga {cfg : Config} {s : System} {saga : Saga.System} {l : SagaLabel} (h : Inv s)
    (hreads : reads cfg s l = true) (hs : Saga.step cfg.saga s.saga l = some saga) :
    Inv { s with saga := saga } := by
  refine ⟨h.1, fun order => ?_⟩
  cases l with
  | flow k m =>
    obtain ⟨⟨w', i'⟩, hm, rfl⟩ := Option.map_eq_some_iff.mp hs
    show Known s.gateway order (Function.update s.saga.insts k i' order).pos.pc
        (Function.update s.saga.insts k i' order).attempt (account order w') ∧
      Told s.gateway order (account order w')
    by_cases ho : order = k
    · subst ho
      rw [Function.update_self]
      exact known_own h.1 (h.2 order).1 (h.2 order).2 hreads hm
    · rw [Function.update_of_ne ho]
      have haccount : account order w' = account order s.saga.world := by
        rcases move_cases hm with ⟨input, a, phase, attempt, -, -, -, hw, -⟩ | ⟨rfl, -⟩
        · exact account_frame hw ho
        · rfl
      rw [haccount]
      exact h.2 order
  | env e =>
    obtain ⟨w', he, rfl⟩ := Option.map_eq_some_iff.mp hs
    show Known s.gateway order (s.saga.insts order).pos.pc (s.saga.insts order).attempt
        (account order w') ∧ Told s.gateway order (account order w')
    rw [account_environment he]
    exact h.2 order

/-- A request that is no authorization of this order. -/
theorem Inv.request {s : System} {order : OrderId} {call : Payment.Call} (h : Inv s)
    (hne : ∀ o, call.authorizes o → o ≠ order) :
    Known (s.gateway.request call) order (s.saga.insts order).pos.pc (s.saga.insts order).attempt
        (account order s.saga.world) ∧
      Told (s.gateway.request call) order (account order s.saga.world) :=
  have hl := Hold.later_request call hne
  ⟨(h.2 order).1.mono hl, (h.2 order).2.mono hl⟩

/-- **One step** of the sagas, of the service, or of the processor. -/
theorem Inv.step {cfg : Config} {s s' : System} {l : Label} (h : Inv s)
    (hs : step cfg s l = some s') : Inv s' := by
  cases l with
  | saga l =>
    simp only [Evidence.step] at hs
    split at hs
    · next hreads =>
      obtain ⟨saga, hsaga, rfl⟩ := Option.map_eq_some_iff.mp hs
      exact h.saga hreads hsaga
    · cases hs
  | authorize k =>
    simp only [Evidence.step] at hs
    split at hs
    · next hat =>
      cases hs
      refine ⟨h.1.request _, fun order => ?_⟩
      by_cases ho : order = k
      · -- where it is requested, nothing has been recorded that would have to be true
        subst ho
        unfold authorizing at hat
        rw [Bool.and_eq_true, decide_eq_true_eq, decide_eq_true_eq] at hat
        obtain ⟨hpc, hattempt⟩ := hat
        have hknown := (h.2 order).1
        show Known (s.gateway.request _) order (s.saga.insts order).pos.pc
            (s.saga.insts order).attempt (account order s.saga.world) ∧
          Told (s.gateway.request _) order (account order s.saga.world)
        rw [hpc, hattempt] at hknown ⊢
        refine ⟨⟨hknown.1, by rintro a ⟨⟩⟩, fun r hr => ?_⟩
        rw [hknown.1] at hr
        cases hr
      · refine h.request fun o hauth => ?_
        obtain ⟨amount, currency, token, hcall⟩ := hauth
        cases hcall
        exact Ne.symm ho
    · cases hs
  | lifecycle kind k =>
    cases hs
    refine ⟨h.1.request _, fun order => h.request fun o hauth => ?_⟩
    obtain ⟨amount, currency, token, hcall⟩ := hauth
    cases hcall
  | gateway e =>
    obtain ⟨g, hg, rfl⟩ := Option.map_eq_some_iff.mp hs
    obtain ⟨hb, hle, hcalls⟩ := h.1.step hg
    refine ⟨hb, fun order => ?_⟩
    have hl : Later s.gateway g order := by
      refine ⟨hle, fun pid call hc => ?_, fun hun call hc => ?_⟩
      · rwa [hcalls]
      · rw [hcalls] at hc
        exact hun call hc
    exact ⟨(h.2 order).1.mono hl, (h.2 order).2.mono hl⟩

theorem inv_of_run {cfg : Config} {ls : List Label} {s : System}
    (h : Run (step cfg) Always .empty ls s) : Inv s := by
  have huntouched : ∀ order, Untouched Gateway.empty order := by
    intro order call hc
    have hc : call ∈ ([] : List Payment.Call) := hc
    cases hc
  have h0 : Inv .empty :=
    ⟨Payment.backed_empty, fun order => ⟨⟨huntouched order, rfl⟩, by rintro r ⟨⟩⟩⟩
  exact h.invariant h0 fun _ _ _ hi _ hs => hi.step hs

/-- **An order that was cancelled before its money** has no authorization that succeeded, and was
never confirmed. -/
theorem untaken_of_run {cfg : Config} {ls : List Label} {s : System} {order : OrderId}
    {row : OrderRow} {reason : CancelReason} (h : Run (step cfg) Always .empty ls s)
    (hrow : s.saga.world.orders order = some row)
    (hreason : row.cancellation.map Prod.fst = some reason) (hb : beforeMoney reason = true) :
    (∀ ref, ¬ s.gateway.truth.Approved order ref) ∧ row.milestones .confirmed = none := by
  obtain ⟨hbacked, hinv⟩ := inv_of_run h
  obtain ⟨huntaken, hconfirmed⟩ : Untaken s.gateway order (account order s.saga.world) := by
    refine (hinv order).2 reason ?_ hb
    show reasonOf (s.saga.world.orders order) = some reason
    rw [hrow]
    exact hreason
  constructor
  · intro ref happ
    rcases huntaken with huntouched | ⟨ref', hdeclined⟩
    · obtain ⟨-, call, hc, hauth⟩ := hbacked.auth order _ happ
      exact huntouched call hc hauth
    · have hsame := happ.symm.trans hdeclined
      simp at hsame
  · have hconfirmed : confirmedOf (s.saga.world.orders order) = false := hconfirmed
    rw [hrow] at hconfirmed
    exact Option.isNone_iff_eq_none.mp (Option.isSome_eq_false_iff.mp hconfirmed)

/-! ### The path of a row -/

section

open Lifecycle (Follows)

variable {r : OrderRow} {path : List OrderStatus} {a : OrderStatus}

/-- The statuses that are reached through CONFIRMED only. -/
def behindConfirmed : OrderStatus → Bool
  | .confirmed | .accepted | .preparing | .ready | .pickedUp | .delivered | .settled => true
  | _ => false

theorem confirmed_of_path (h : Follows r path) (ha : a ∈ path) (hb : behindConfirmed a = true) :
    (r.milestones .confirmed).isSome = true := by
  have haccepted : .accepted ∈ path → .confirmed ∈ path := h.mem_of_forward rfl
  have hpreparing : .preparing ∈ path → .accepted ∈ path := h.mem_of_forward rfl
  have hready : .ready ∈ path → .preparing ∈ path := h.mem_of_forward rfl
  have hpicked : .pickedUp ∈ path → .ready ∈ path := h.mem_of_forward rfl
  have hdelivered : .delivered ∈ path → .pickedUp ∈ path := h.mem_of_forward rfl
  have hsettled : .settled ∈ path → .delivered ∈ path := h.mem_of_forward rfl
  refine (h.milestones .confirmed).mpr ⟨rfl, ?_⟩
  cases a with
  | confirmed => exact ha
  | accepted => exact haccepted ha
  | preparing => exact haccepted (hpreparing ha)
  | ready => exact haccepted (hpreparing (hready ha))
  | pickedUp => exact haccepted (hpreparing (hready (hpicked ha)))
  | delivered => exact haccepted (hpreparing (hready (hpicked (hdelivered ha))))
  | settled => exact haccepted (hpreparing (hready (hpicked (hdelivered (hsettled ha)))))
  | _ => cases hb

/-- Where a row is whose payment has cleared, and that was never confirmed. -/
theorem status_of_unconfirmed (h : Follows r path)
    (hcleared : (r.milestones .paymentCleared).isSome = true)
    (hconfirmed : r.milestones .confirmed = none) :
    r.status = .paymentCleared ∨ r.status = .cancelling ∨ r.status = .cancelled := by
  have hmem : r.status ∈ path := List.mem_of_getLast? h.reached
  have hrank := h.rank_le_status ((h.milestones .paymentCleared).mp hcleared).2
  have hnot : behindConfirmed r.status = false := by
    by_contra hb
    have hsome := confirmed_of_path h hmem (Bool.not_eq_false _ ▸ hb)
    rw [hconfirmed] at hsome
    cases hsome
  rcases hst : r.status with _ | _ | _ | _ | _ | _ | _ | _ | _ | _ | _ | _ | _
  case paymentCleared => exact .inl rfl
  case cancelling => exact .inr (.inl rfl)
  case cancelled => exact .inr (.inr rfl)
  case placed => rw [hst] at hrank; exact absurd hrank (by decide)
  case validated => rw [hst] at hrank; exact absurd hrank (by decide)
  case refunded =>
    exact absurd hst h.ne_refunded
  all_goals
    rw [hst] at hnot
    cases hnot

end

/-- Every row has a path that it follows. -/
theorem exists_path_of_run {cfg : Config} {ls : List Label} {s : System} {order : OrderId}
    {row : OrderRow} (h : Run (step cfg) Always .empty ls s)
    (hrow : s.saga.world.orders order = some row) : ∃ path, Lifecycle.Follows row path := by
  obtain ⟨is, hsaga⟩ := saga_run h
  obtain ⟨ws, hist, hws, hlast⟩ := Lifecycle.written_of_run hsaga order
  exact ⟨hist.path, ((Lifecycle.lifecycle_of_run hws).2 row (hlast.trans hrow)).1⟩

/-! ### Runs -/

def oneOrder : Config where
  saga := { cart := fun _ => ⟨"h", "r", [⟨"i", 2⟩], 700, "EUR", "tok"⟩ }
  payment := ⟨id, {}⟩

/-- An activity of one step, at a time. -/
def once (order : OrderId) (now : ℕ) : List Label :=
  [.saga (.flow order (.work ⟨now, .ok⟩)), .saga (.flow order .report)]

/-- An activity of two steps. -/
def twice (order : OrderId) (now : ℕ) : List Label :=
  .saga (.flow order (.work ⟨now, .ok⟩)) :: once order now

/-- `n` statements of a request. -/
def statements (pid n : ℕ) : List Label := List.replicate n (.gateway (.statement pid 0))

/-- An order up to PAYMENT_CLEARED, whose authorization the processor approves. -/
def upToCleared (order : OrderId) : List Label :=
  [.saga (.env (.setStock "r" "i" 5))] ++ once order 1 ++ twice order 2 ++ [.authorize order] ++
    statements 0 1 ++ [.gateway (.attempt 0 .delivered true "ref")] ++ statements 0 4 ++
    twice order 3

/-- The unwind, whose void reaches the processor. -/
def unwindAll (order : OrderId) (now : ℕ) : List Label :=
  once order now ++ [.lifecycle .void order] ++ statements 1 2 ++
    [.gateway (.attempt 1 .delivered true "x")] ++ statements 1 3 ++ once order now ++
    once order now ++ once order now

end Evidence

end Order
