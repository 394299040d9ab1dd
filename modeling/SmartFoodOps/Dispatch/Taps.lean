/-
Taps that the dispatch process does not survive.

A rider's tap is a sequence of external calls: conditional writes on the two tables,
an event to Kafka, and the relay to the order service.  The process can stop before
any of them, and the rider taps again.

* `Progress`, `tapStep` — a tap between two external calls; `tapStep_perform` says that
  a tap nobody stops is the straight-line operation of `Service`;
* `Recovers` — the second tap answers success and leaves the tables that an
  uninterrupted one would have left;
* `recovers_iff` — it does, except for an accept that stops once its lock is converted
  and before the row shows it: replay is recognised by the row alone.
-/
import SmartFoodOps.Dispatch.Interleaving

namespace Dispatch

/-- A rider's tap. -/
inductive RiderTap
  | accept (rider : RiderId) (offer : OfferId) (order : OrderId)
  | pickedUp (rider : RiderId) (order : OrderId)
  | delivered (rider : RiderId) (order : OrderId)
  deriving DecidableEq, Repr

/-- A tap before its next external call. -/
inductive Progress
  | store (op : Op)
  /-- `rider_assigned` and `delivery_completed`: an event that is lost is only logged. -/
  | emit
  | send
  /-- Answered, or ended by the exception of the relay. -/
  | ended (answer : Option Outcome)
  deriving DecidableEq, Repr

namespace RiderTap

def rider : RiderTap → RiderId
  | accept rider _ _ | pickedUp rider _ | delivered rider _ => rider

def order : RiderTap → OrderId
  | accept _ _ order | pickedUp _ order | delivered _ order => order

def event : RiderTap → CourierEvent
  | accept .. => .accepted
  | pickedUp .. => .pickedUp
  | delivered .. => .delivered

def success : RiderTap → Outcome
  | accept .. => .assigned
  | pickedUp .. | delivered .. => .ok

def call : RiderTap → Call
  | accept rider offer order => .acceptOffer rider offer order
  | pickedUp rider order => .pickedUp rider order
  | delivered rider order => .delivered rider order

variable {ω : Type*}

/-- The tap, uninterrupted. -/
def perform (send : Courier ω) (t : Tables) (w : ω) : RiderTap → Tables × ω × Option Outcome
  | accept rider offer order => acceptOffer send t w rider offer order
  | pickedUp rider order => Dispatch.pickedUp send t w rider order
  | delivered rider order => Dispatch.delivered send t w rider order

end RiderTap

/-! ### One external call after the other -/

/-- The store calls that an event follows. -/
def Op.emits : Op → Bool
  | .assign .. => true
  | .finishDelivered .. => true
  | _ => false

namespace RiderTap

/-- What follows a store call `op` that has led to `op'`. -/
def follow (tap : RiderTap) (op op' : Op) : Progress :=
  match op' with
  | .answered outcome =>
    if outcome = tap.success then if op.emits then .emit else .send else .ended (some outcome)
  | op' => .store op'

variable {ω : Type*}

/-- One external call. -/
def tapStep (send : Courier ω) (tap : RiderTap) : Tables × ω × Progress → Tables × ω × Progress
  | (t, w, .store op) =>
    match opStep 0 "" t op with
    | some (t', op') => (t', w, tap.follow op op')
    | none => (t, w, .ended none)
  | (t, w, .emit) => (t, w, .send)
  | (t, w, .send) =>
    let (w, answer) := relay send w tap.order tap.event tap.rider tap.success
    (t, w, .ended answer)
  | (t, w, .ended answer) => (t, w, .ended answer)

/-- The tap when its process stops after `n` external calls. -/
def stopped (send : Courier ω) (tap : RiderTap) (t : Tables) (w : ω) (n : ℕ) :
    Tables × ω × Progress :=
  (tap.tapStep send)^[n] (t, w, .store tap.call.begin)

/-- A repeated tap succeeds, and the tables are those of a tap that was not stopped. -/
def Recovers (send : Courier ω) (tap : RiderTap) (t : Tables) (w w' : ω) (n : ℕ) : Prop :=
  (tap.perform send (tap.stopped send t w n).1 w').2.2 = some tap.success ∧
    (tap.perform send (tap.stopped send t w n).1 w').1 = (tap.perform send t w).1

/-! ### When a tap works, and when it can be stopped -/

/-- The row that a store transition of the tap applies to. -/
def Held (row : Option DeliveryRow) (rider : RiderId) (state : DeliveryState) : Prop :=
  ∃ q, row = some q ∧ q.state = state ∧ q.riderId = rider

/-- A tap that an uninterrupted call would answer with success, if it can be relayed. -/
def Works (t : Tables) : RiderTap → Prop
  | accept rider offer order =>
    (t.riders rider).locks offer = true ∨ acceptedBefore (t.deliveries order) rider offer = true
  | pickedUp rider order =>
    Held (t.deliveries order) rider .assigned ∨
      isReplay (t.deliveries order) rider [.pickedUp, .delivered] = true
  | delivered rider order =>
    Held (t.deliveries order) rider .pickedUp ∨
      isReplay (t.deliveries order) rider [.delivered] = true

/-- A stop that the row remembers.  An accept that converted its lock is only seen in the
row: in the row it found, or in the row it has moved to ASSIGNED since. -/
def Remembered (t : Tables) (n : ℕ) : RiderTap → Prop
  | accept rider offer order =>
    (t.riders rider).locks offer = true → n ≠ 0 →
      acceptedBefore (t.deliveries order) rider offer = true ∨
        2 ≤ n ∧ t.deliveries order = some ⟨.offering, rider, offer⟩
  | _ => True

/-! ### A tap that is not stopped -/

section

variable {ω : Type*} (send : Courier ω) (tap : RiderTap) (t : Tables) (w : ω)

/-- A tap that has answered, or has only its event and its relay to go, writes no more. -/
theorem tapStep_tables (n : ℕ) (p : Progress) (hp : ∀ op, p ≠ .store op) :
    ((tap.tapStep send)^[n] (t, w, p)).1 = t := by
  induction n generalizing w p with
  | zero => rfl
  | succ n ih =>
    rw [Function.iterate_succ_apply]
    cases p with
    | store op => exact absurd rfl (hp op)
    | emit => exact ih w .send fun _ h => by cases h
    | send => exact ih _ (.ended _) fun _ h => by cases h
    | ended answer => exact ih w (.ended answer) fun _ h => by cases h

-- a tap is executed call by call
attribute [local simp] stopped Function.iterate_succ_apply tapStep call Call.begin opStep follow
  success Op.emits perform RiderTap.order event RiderTap.rider in
/-- **A tap nobody stops** is the operation of the service. -/
theorem tapStep_perform :
    tap.stopped send t w 5 =
      ((tap.perform send t w).1, (tap.perform send t w).2.1,
        .ended (tap.perform send t w).2.2) := by
  cases tap with
  | accept rider offer order =>
    rcases ht : t.accept rider offer order with ⟨t', _ | _⟩
    · by_cases hb : acceptedBefore (t'.deliveries order) rider offer = true
      · simp [ht, hb, acceptOffer]
      · simp [ht, hb, acceptOffer]
    · simp [ht, acceptOffer]
  | pickedUp rider order =>
    rcases ht : t.markPickedUp order rider with ⟨t', _ | _⟩
    · by_cases hb : isReplay (t'.deliveries order) rider [.pickedUp, .delivered] = true
      · simp [ht, hb, Dispatch.pickedUp]
      · simp [ht, hb, Dispatch.pickedUp]
    · simp [ht, Dispatch.pickedUp]
  | delivered rider order =>
    rcases ht : t.markDelivered order rider with ⟨t', _ | _⟩
    · by_cases hb : isReplay (t'.deliveries order) rider [.delivered] = true
      · simp [ht, hb, Dispatch.delivered]
      · simp [ht, hb, Dispatch.delivered]
    · simp [ht, Dispatch.delivered]

end

/-! ### The tables that a tap leaves -/

/-- The tables after an uninterrupted tap. -/
def leaves (t : Tables) : RiderTap → Tables
  | accept rider offer order =>
    match t.accept rider offer order with
    | (t, true) => (t.assign order offer).1
    | (t, false) => t
  | pickedUp rider order => (t.markPickedUp order rider).1
  | delivered rider order =>
    match t.markDelivered order rider with
    | (t, true) => (t.finishDelivery rider order).1
    | (t, false) =>
      if isReplay (t.deliveries order) rider [.delivered] then (t.finishDelivery rider order).1
      else t

section

variable {ω : Type*} (send : Courier ω) (t : Tables) (w : ω) (rider : RiderId) (offer : OfferId)
  (order : OrderId)

theorem perform_tables (tap : RiderTap) : (tap.perform send t w).1 = tap.leaves t := by
  cases tap with
  | accept rider offer order =>
    rcases ht : t.accept rider offer order with ⟨t', _ | _⟩
    · simp only [perform, acceptOffer, leaves, ht]
      split <;> rfl
    · simp [perform, acceptOffer, leaves, ht]
  | pickedUp rider order =>
    simp only [perform, Dispatch.pickedUp, leaves]
    split <;> rfl
  | delivered rider order =>
    rcases ht : t.markDelivered order rider with ⟨t', _ | _⟩
    · simp only [perform, Dispatch.delivered, leaves, ht]
      by_cases hb : isReplay (t'.deliveries order) rider [.delivered] = true <;> simp [hb]
    · simp [perform, Dispatch.delivered, leaves, ht]

/-! ### Stops -/

theorem stopped_accept_one :
    ((accept rider offer order).stopped send t w 1).1 = (t.accept rider offer order).1 := by
  rcases ht : t.accept rider offer order with ⟨t', _ | _⟩ <;>
    simp [stopped, tapStep, call, Call.begin, opStep, ht]

/-- Past its second call, an accept has no write left. -/
theorem stopped_accept (n : ℕ) :
    ((accept rider offer order).stopped send t w (n + 2)).1 =
      (accept rider offer order).leaves t := by
  rw [stopped, Function.iterate_add_apply]
  rcases ht : t.accept rider offer order with ⟨t', _ | _⟩
  · by_cases hb : acceptedBefore (t'.deliveries order) rider offer = true
    · simp only [Function.iterate_succ_apply, Function.iterate_zero_apply, tapStep, call,
        Call.begin, opStep, ht, follow, hb, leaves, success, Op.emits, if_true]
      exact tapStep_tables _ _ _ _ _ _ (by simp)
    · simp only [Function.iterate_succ_apply, Function.iterate_zero_apply, tapStep, call,
        Call.begin, opStep, ht, follow, hb, leaves, success]
      exact tapStep_tables _ _ _ _ _ _ (by simp)
  · simp only [Function.iterate_succ_apply, Function.iterate_zero_apply, tapStep, call,
      Call.begin, opStep, ht, follow, leaves, success, Op.emits, if_true]
    exact tapStep_tables _ _ _ _ _ _ (by simp)

theorem stopped_pickedUp (n : ℕ) :
    ((pickedUp rider order).stopped send t w n).1 = t ∨
      ((pickedUp rider order).stopped send t w n).1 = (pickedUp rider order).leaves t := by
  cases n with
  | zero => exact .inl rfl
  | succ n =>
    right
    rw [stopped, Function.iterate_succ_apply]
    rcases ht : t.markPickedUp order rider with ⟨t', _ | _⟩
    · cases n with
      | zero => simp [tapStep, call, Call.begin, opStep, ht, leaves]
      | succ n =>
        rw [Function.iterate_succ_apply]
        simp only [tapStep, call, Call.begin, opStep, ht, follow, leaves]
        refine tapStep_tables _ _ _ _ _ _ fun op => ?_
        split <;> (try split) <;> rintro ⟨⟩
    · simp only [tapStep, call, Call.begin, opStep, ht, follow, success, leaves, Op.emits, if_true]
      exact tapStep_tables _ _ _ _ _ _ (by simp)

theorem stopped_delivered (n : ℕ) :
    ((delivered rider order).stopped send t w n).1 = t ∨
      ((delivered rider order).stopped send t w n).1 = (t.markDelivered order rider).1 ∨
      ((delivered rider order).stopped send t w n).1 = (delivered rider order).leaves t := by
  cases n with
  | zero => exact .inl rfl
  | succ n =>
    right
    rw [stopped, Function.iterate_succ_apply]
    rcases ht : t.markDelivered order rider with ⟨t', _ | _⟩
    · cases n with
      | zero => simp [tapStep, call, Call.begin, opStep, ht]
      | succ n =>
        rw [Function.iterate_succ_apply]
        by_cases hb : isReplay (t'.deliveries order) rider [.delivered] = true
        · cases n with
          | zero => simp [tapStep, call, Call.begin, opStep, ht, follow, hb]
          | succ n =>
            right
            rw [Function.iterate_succ_apply]
            simp only [tapStep, call, Call.begin, opStep, ht, follow, hb, success, leaves,
              Op.emits, if_true]
            exact tapStep_tables _ _ _ _ _ _ (by simp)
        · left
          simp only [tapStep, call, Call.begin, opStep, ht, follow, hb, success]
          exact tapStep_tables _ _ _ _ _ _ (by simp)
    · cases n with
      | zero => simp [tapStep, call, Call.begin, opStep, ht]
      | succ n =>
        right
        rw [Function.iterate_succ_apply]
        simp only [tapStep, call, Call.begin, opStep, ht, follow, success, leaves, Op.emits,
          if_true]
        exact tapStep_tables _ _ _ _ _ _ (by simp)

end

/-! ### The second tap -/

section

variable {t : Tables} {rider : RiderId} {order : OrderId} {expected : DeliveryState}

/-- A guarded move of the row applies to the row held in the expected state. -/
theorem transition_held (target : DeliveryState) (h : Held (t.deliveries order) rider expected) :
    ∃ q, t.onDelivery order (fun row =>
        DeliveryStore.transition row expected target none (some rider)) =
      (t.setDelivery order q, true) ∧ q.state = target ∧ q.riderId = rider := by
  obtain ⟨q, hq, hs, hr⟩ := h
  refine ⟨{ q with state := target }, ?_, rfl, hr⟩
  simp [Tables.onDelivery, DeliveryStore.transition, hq, hs, hr]

theorem transition_not_held {target : DeliveryState}
    (h : ¬ Held (t.deliveries order) rider expected) :
    t.onDelivery order (fun row =>
        DeliveryStore.transition row expected target none (some rider)) = (t, false) := by
  rcases t.onDelivery_cases order fun row =>
      DeliveryStore.transition row expected target none (some rider) with ⟨r, hr, -⟩ | ⟨-, he⟩
  · obtain ⟨q, hq, hs, -, hrider, -⟩ := DeliveryStore.transition_eq hr
    exact absurd ⟨q, hq, hs, hrider rider rfl⟩ h
  · exact he

theorem finishDelivery_finishDelivery (t : Tables) (rider : RiderId) (order : OrderId) :
    ((t.finishDelivery rider order).1.finishDelivery rider order).1 =
      (t.finishDelivery rider order).1 := by
  by_cases h : order ∈ (t.riders rider).activeDeliveries
  · simp [Tables.finishDelivery, Tables.onRider, RiderState.finishDelivery, h]
  · simp [Tables.finishDelivery, Tables.onRider, RiderState.finishDelivery, h]

theorem finishDelivery_deliveries (t : Tables) (rider : RiderId) (order : OrderId) :
    (t.finishDelivery rider order).1.deliveries = t.deliveries := by
  rcases t.onRider_cases rider fun s => s.finishDelivery order with ⟨s, -, he⟩ | ⟨-, he⟩ <;>
    rw [Tables.finishDelivery, he]
  rfl

/-- A row in a later state of the same rider is not moved again, and is recognised. -/
theorem replayed {q : DeliveryRow} (expected : DeliveryState) (states : List DeliveryState)
    (hq : t.deliveries order = some q)
    (hr : q.riderId = rider) (hs : q.state ∈ states) (hne : q.state ≠ expected) :
    ¬ Held (t.deliveries order) rider expected ∧
      isReplay (t.deliveries order) rider states = true := by
  refine ⟨?_, ?_⟩
  · rintro ⟨q', hq', hs', -⟩
    rw [hq] at hq'
    cases hq'
    exact hne hs'
  · simp [isReplay, hq, hr, hs]

/-- A tap on the tables `t'` does what it would have done on `t`. -/
def Resumes (tap : RiderTap) (t t' : Tables) : Prop :=
  (tap.Works t' ↔ tap.Works t) ∧ tap.leaves t' = tap.leaves t

theorem Resumes.refl (tap : RiderTap) (t : Tables) : tap.Resumes t t := ⟨.rfl, rfl⟩

theorem resumes_pickedUp (t : Tables) (rider : RiderId) (order : OrderId) :
    (pickedUp rider order).Resumes t ((pickedUp rider order).leaves t) := by
  by_cases h : Held (t.deliveries order) rider .assigned
  · obtain ⟨q, hm, hs, hr⟩ := transition_held .pickedUp h
    have hm : t.markPickedUp order rider = (t.setDelivery order q, true) := hm
    have hrow : (t.setDelivery order q).deliveries order = some q := by simp
    obtain ⟨hnot, hrep⟩ := replayed .assigned [.pickedUp, .delivered] hrow hr (by simp [hs])
      (by simp [hs])
    have hagain : (t.setDelivery order q).markPickedUp order rider =
        (t.setDelivery order q, false) := transition_not_held hnot
    show (Works _ _ ↔ Works _ _) ∧ _
    simp only [leaves, hm, hagain, and_true]
    exact iff_of_true (.inr hrep) (.inl h)
  · have hm : t.markPickedUp order rider = (t, false) := transition_not_held h
    simp only [leaves, hm]
    exact .refl _ _

/-- The rider's slot is freed once, whatever the number of taps. -/
theorem resumes_delivered (t : Tables) (rider : RiderId) (order : OrderId) :
    (delivered rider order).Resumes t (t.markDelivered order rider).1 ∧
      (delivered rider order).Resumes t ((delivered rider order).leaves t) := by
  -- tables whose row is DELIVERED already, with the slot freed or not
  have hdone : ∀ u : Tables, ¬ Held (u.deliveries order) rider .pickedUp →
      isReplay (u.deliveries order) rider [.delivered] = true →
      (delivered rider order).Works u ∧
        (delivered rider order).leaves u = (u.finishDelivery rider order).1 := by
    intro u hnot hrep
    have hm : u.markDelivered order rider = (u, false) := transition_not_held hnot
    exact ⟨.inr hrep, by simp [leaves, hm, hrep]⟩
  have hfinish : ∀ u : Tables, ¬ Held (u.deliveries order) rider .pickedUp →
      isReplay (u.deliveries order) rider [.delivered] = true →
      (delivered rider order).Works (u.finishDelivery rider order).1 ∧
        (delivered rider order).leaves (u.finishDelivery rider order).1 =
          (u.finishDelivery rider order).1 := by
    intro u hnot hrep
    have hdel := finishDelivery_deliveries u rider order
    obtain ⟨hw, hl⟩ := hdone (u.finishDelivery rider order).1 (by rwa [hdel]) (by rwa [hdel])
    exact ⟨hw, hl.trans (finishDelivery_finishDelivery u rider order)⟩
  by_cases h : Held (t.deliveries order) rider .pickedUp
  · obtain ⟨q, hm, hs, hr⟩ := transition_held .delivered h
    have hm : t.markDelivered order rider = (t.setDelivery order q, true) := hm
    have hrow : (t.setDelivery order q).deliveries order = some q := by simp
    obtain ⟨hnot, hrep⟩ := replayed .pickedUp [.delivered] hrow hr (by simp [hs]) (by simp [hs])
    have hl : (delivered rider order).leaves t =
        ((t.setDelivery order q).finishDelivery rider order).1 := by simp [leaves, hm]
    rw [Resumes, Resumes, hl, hm]
    obtain ⟨hw₁, hl₁⟩ := hdone _ hnot hrep
    obtain ⟨hw₂, hl₂⟩ := hfinish _ hnot hrep
    exact ⟨⟨iff_of_true hw₁ (.inl h), hl₁⟩, ⟨iff_of_true hw₂ (.inl h), hl₂⟩⟩
  · have hm : t.markDelivered order rider = (t, false) := transition_not_held h
    rw [hm]
    refine ⟨.refl _ _, ?_⟩
    by_cases hrep : isReplay (t.deliveries order) rider [.delivered] = true
    · obtain ⟨hw₁, hl₁⟩ := hdone t h hrep
      obtain ⟨hw₂, hl₂⟩ := hfinish t h hrep
      rw [Resumes, hl₁]
      exact ⟨iff_of_true hw₂ hw₁, hl₂⟩
    · have hl : (delivered rider order).leaves t = t := by simp [leaves, hm, hrep]
      rw [hl]
      exact .refl _ _

/-- A converted lock is gone, and the row is what it was. -/
theorem accept_locked {offer : OfferId} (order : OrderId)
    (h : (t.riders rider).locks offer = true) :
    ∃ u, t.accept rider offer order = (u, true) ∧ (u.riders rider).locks offer = false ∧
      u.deliveries = t.deliveries := by
  rcases t.onRider_cases rider fun s => s.accept offer order with ⟨s, hs, he⟩ | ⟨hs, -⟩
  · obtain ⟨-, hnone, -⟩ := RiderState.accept_eq hs
    exact ⟨_, he, by simp [RiderState.locks, hnone], rfl⟩
  · simp [RiderState.accept, h] at hs

theorem accept_not_locked {offer : OfferId} (h : (t.riders rider).locks offer = false) :
    t.accept rider offer order = (t, false) := by
  simp [Tables.accept, Tables.onRider, RiderState.accept, h]

/-- An assignment that ran is seen in the row if the row named the rider and the offer,
or was taken by them before. -/
theorem acceptedBefore_assign {offer : OfferId} :
    acceptedBefore ((t.assign order offer).1.deliveries order) rider offer = true ↔
      acceptedBefore (t.deliveries order) rider offer = true ∨
        t.deliveries order = some ⟨.offering, rider, offer⟩ := by
  rcases t.onDelivery_cases order fun row => DeliveryStore.assign row offer with
    ⟨r, hr, he⟩ | ⟨hnone, he⟩
  · obtain ⟨⟨state, who, oid⟩, hq, hs, ho, rfl⟩ := DeliveryStore.assign_eq hr
    simp only at hs ho
    subst hs ho
    simp [Tables.assign, he, hq, acceptedBefore, taken]
  · rw [Tables.assign, he]
    refine ⟨.inl, ?_⟩
    rintro (h | h)
    · exact h
    · rw [h] at hnone
      simp [DeliveryStore.assign, DeliveryStore.transition] at hnone

theorem assign_riders {offer : OfferId} : (t.assign order offer).1.riders = t.riders := by
  rcases t.onDelivery_cases order fun row => DeliveryStore.assign row offer with
    ⟨r, -, he⟩ | ⟨-, he⟩ <;> rw [Tables.assign, he]
  rfl

/-- The row of an accept is not assigned again. -/
theorem assign_of_acceptedBefore {offer : OfferId}
    (h : acceptedBefore (t.deliveries order) rider offer = true) :
    (t.assign order offer).1 = t := by
  rcases t.onDelivery_cases order fun row => DeliveryStore.assign row offer with
    ⟨r, hr, -⟩ | ⟨-, he⟩
  · obtain ⟨q, hq, hs, -⟩ := DeliveryStore.assign_eq hr
    rw [hq] at h
    simp [acceptedBefore, hs, taken] at h
  · rw [Tables.assign, he]

end

/-! ### Which stops a second tap makes good -/

section

variable {ω : Type*} (send : Courier ω) (t : Tables) (w w' : ω)

/-- A tap is answered with success exactly when it works and can be relayed. -/
theorem perform_answer (tap : RiderTap) :
    (tap.perform send t w).2.2 = some tap.success ↔
      tap.Works t ∧ (send w tap.order tap.event tap.rider).2 ≠ .unavailable := by
  have hrelay : ∀ order event rider answer,
      (relay send w order event rider answer).2 = some answer ↔
        (send w order event rider).2 ≠ .unavailable := by
    intro order event rider answer
    rcases hs : send w order event rider with ⟨v, _ | _ | _⟩ <;> simp [relay, hs]
  cases tap with
  | accept rider offer order =>
    rcases hl : (t.riders rider).locks offer with _ | _
    · by_cases hb : acceptedBefore (t.deliveries order) rider offer = true
      · simpa [perform, acceptOffer, accept_not_locked hl, hb, Works, success, RiderTap.order, event,
          RiderTap.rider] using hrelay order _ rider _
      · simp [perform, acceptOffer, accept_not_locked hl, hb, Works, success, hl]
    · obtain ⟨u, hu, -⟩ := accept_locked order hl
      simpa [perform, acceptOffer, hu, Works, success, hl, RiderTap.order, event,
        RiderTap.rider] using hrelay order _ rider _
  | pickedUp rider order =>
    by_cases h : Held (t.deliveries order) rider .assigned
    · obtain ⟨q, hm, -⟩ := transition_held .pickedUp h
      have hm : t.markPickedUp order rider = (t.setDelivery order q, true) := hm
      simpa [perform, Dispatch.pickedUp, hm, Works, h, success, RiderTap.order, event,
          RiderTap.rider] using hrelay order _ rider _
    · have hm : t.markPickedUp order rider = (t, false) := transition_not_held h
      by_cases hb : isReplay (t.deliveries order) rider [.pickedUp, .delivered] = true
      · simpa [perform, Dispatch.pickedUp, hm, hb, Works, success, RiderTap.order, event,
          RiderTap.rider] using hrelay order _ rider _
      · simp [perform, Dispatch.pickedUp, hm, hb, Works, h, success]
  | delivered rider order =>
    by_cases h : Held (t.deliveries order) rider .pickedUp
    · obtain ⟨q, hm, -⟩ := transition_held .delivered h
      have hm : t.markDelivered order rider = (t.setDelivery order q, true) := hm
      simpa [perform, Dispatch.delivered, hm, Works, h, success, RiderTap.order, event,
          RiderTap.rider] using hrelay order _ rider _
    · have hm : t.markDelivered order rider = (t, false) := transition_not_held h
      by_cases hb : isReplay (t.deliveries order) rider [.delivered] = true
      · simpa [perform, Dispatch.delivered, hm, hb, Works, success, RiderTap.order, event,
          RiderTap.rider] using hrelay order _ rider _
      · simp [perform, Dispatch.delivered, hm, hb, Works, h, success]

/-- **A second tap makes good any stop that the row remembers**, and no other. -/
theorem recovers_iff (tap : RiderTap) (n : ℕ) :
    tap.Recovers send t w w' n ↔
      tap.Works t ∧ tap.Remembered t n ∧
        (send w' tap.order tap.event tap.rider).2 ≠ .unavailable := by
  unfold Recovers
  rw [perform_answer, perform_tables, perform_tables]
  cases tap with
  | pickedUp rider order =>
    have hres : (pickedUp rider order).Resumes t ((pickedUp rider order).stopped send t w n).1 := by
      rcases stopped_pickedUp send t w rider order n with h | h <;> rw [h]
      · exact .refl _ _
      · exact resumes_pickedUp t rider order
    rw [hres.1, hres.2]
    simp [Remembered]
  | delivered rider order =>
    have hres : (delivered rider order).Resumes t
        ((delivered rider order).stopped send t w n).1 := by
      rcases stopped_delivered send t w rider order n with h | h | h <;> rw [h]
      · exact .refl _ _
      · exact (resumes_delivered t rider order).1
      · exact (resumes_delivered t rider order).2
    rw [hres.1, hres.2]
    simp [Remembered]
  | accept rider offer order =>
    rcases hl : (t.riders rider).locks offer with _ | _
    · -- no lock to convert: no write is made
      have hm : t.accept rider offer order = (t, false) := accept_not_locked hl
      have hstop : ((accept rider offer order).stopped send t w n).1 = t := by
        rcases n with _ | _ | n
        · rfl
        · rw [stopped_accept_one, hm]
        · rw [stopped_accept]
          simp [leaves, hm]
      rw [hstop]
      simp [Remembered, hl]
    · obtain ⟨u, hm, hgone, hdel⟩ := accept_locked order hl
      have hleaves : ∀ v : Tables, (v.riders rider).locks offer = false →
          (accept rider offer order).leaves v = v := by
        intro v hv
        simp [leaves, accept_not_locked hv]
      have hworks : ∀ v : Tables, (v.riders rider).locks offer = false →
          ((accept rider offer order).Works v ↔
            acceptedBefore (v.deliveries order) rider offer = true) := by
        intro v hv
        simp [Works, hv]
      have hfinal : (accept rider offer order).leaves t = (u.assign order offer).1 := by
        simp [leaves, hm]
      have hgone' : ((u.assign order offer).1.riders rider).locks offer = false := by
        rw [assign_riders]
        exact hgone
      rcases n with _ | _ | n
      · have hstop : ((accept rider offer order).stopped send t w 0).1 = t := rfl
        rw [hstop]
        simp [Remembered]
      · -- the lock is converted and the row not yet assigned
        have hstop : ((accept rider offer order).stopped send t w (0 + 1)).1 = u :=
          (stopped_accept_one ..).trans (by rw [hm])
        rw [hstop, hleaves u hgone, hworks u hgone, hfinal, hdel]
        have hsame : acceptedBefore (t.deliveries order) rider offer = true →
            u = (u.assign order offer).1 := by
          intro hb
          exact (assign_of_acceptedBefore (by rwa [hdel])).symm
        constructor
        · rintro ⟨⟨hb, hsend⟩, -⟩
          exact ⟨.inl hl, fun _ _ => .inl hb, hsend⟩
        · rintro ⟨-, hrem, hsend⟩
          rcases hrem hl (by omega) with hb | ⟨hn, -⟩
          · exact ⟨⟨hb, hsend⟩, hsame hb⟩
          · omega
      · have hstop : ((accept rider offer order).stopped send t w (n + 2)).1 =
            (u.assign order offer).1 := (stopped_accept ..).trans hfinal
        rw [hstop, hleaves _ hgone', hworks _ hgone', hfinal, acceptedBefore_assign, hdel]
        simp [Works, Remembered, hl]

/-- A stop between the two writes of an accept: the lock is converted, the row is
OFFERING, and the rider who taps again is told that the offer has expired. -/
theorem accept_not_recovered : ∃ t : Tables,
    ((accept "r1" "off1" "o1").perform ack t ()).2.2 = some .assigned ∧
      ((accept "r1" "off1" "o1").perform ack
        ((accept "r1" "off1" "o1").stopped ack t () 1).1 ()).2.2 = some .expired ∧
      ¬ (accept "r1" "off1" "o1").Recovers ack t () () 1 :=
  ⟨(Tables.empty.setRider "r1" ⟨.online, some ⟨"off1", "o1"⟩, ∅, 1, 0⟩).setDelivery "o1"
      ⟨.offering, "r1", "off1"⟩, by decide, by decide, fun h => absurd h.1 (by decide)⟩

end

end RiderTap

end Dispatch
