/-
What `expire_offer` answers, and what becomes of the offer.

* `System` — the operations of dispatch, with the call that each was started by;
* `Decided` — the row is with a rider, or no accept of the offer is between its two writes;
* `Gains` — a rider gets the order into his set by the offer;
* `Over` — nobody holds the lock of the offer, and no assignment under it is to come;
* `expiry_final` — when every expiry reads a decided row, an offer that was answered `revoked`
  never assigns the row and never brings the order into the set, and whom `already_assigned`
  names has the order.
-/
import SmartFoodOps.Dispatch.Agreement
import SmartFoodOps.Dispatch.Capacity
import SmartFoodOps.Dispatch.Offers

open Machine

namespace Dispatch

/-! ### The riders' sets -/

/-- The store calls that take an order out of a rider's set. -/
def Op.Frees (rider : RiderId) (order : OrderId) : Op → Prop
  | .finishUnassigned d r | .finishDelivered r d => r = rider ∧ d = order
  | .finishCancelled d seen => seen.riderId = rider ∧ d = order
  | _ => False

section

variable {cap : ℕ} {fresh offer : OfferId} {t t' : Tables} {op op' : Op} {rider r : RiderId}
  {order d : OrderId}

theorem active_of_finishDelivery :
    (t.finishDelivery r d).1.Active rider order ↔
      t.Active rider order ∧ ¬ (r = rider ∧ d = order) :=
  (freed_finishDelivery rider order).1

/-- **Sets.**  A store call leaves a set as it is, or it is an accept that converts, or it takes
the order out. -/
theorem opStep_active (h : opStep cap fresh t op = some (t', op')) (rider : RiderId)
    (order : OrderId) :
    (t'.Active rider order ↔ t.Active rider order) ∨
      (∃ offer, op = .accept rider offer order ∧ op' = .assign rider offer order ∧
        t'.Active rider order) ∨
      op.Frees rider order ∧ ¬ t'.Active rider order := by
  have hrow : ∀ {d write}, (t.onDelivery d write).1.Active rider order ↔ t.Active rider order := by
    intro d write
    unfold Tables.Active
    rw [onDelivery_riders]
  have hfinish : ∀ {r d}, ((t.finishDelivery r d).1.Active rider order ↔ t.Active rider order) ∨
      (r = rider ∧ d = order) ∧ ¬ (t.finishDelivery r d).1.Active rider order := by
    intro r d
    rw [active_of_finishDelivery]
    by_cases hrd : r = rider ∧ d = order
    · exact .inr ⟨hrd, fun ha => ha.2 hrd⟩
    · exact .inl (and_iff_left hrd)
  cases does h with
  | reserves | passesOver => exact .inl (same_reserve rider order).1
  | releases | findsNoLock | releasesCancelled => exact .inl (same_releaseOffer rider order).1
  | @accepts r offer d hw =>
    have ha := (accept_converts (Prod.ext rfl hw) rider order).1
    by_cases hrd : r = rider ∧ d = order
    · obtain ⟨rfl, rfl⟩ := hrd
      exact .inr (.inl ⟨offer, rfl, rfl, ha.mpr (.inr ⟨rfl, rfl⟩)⟩)
    · exact .inl (ha.trans (or_iff_left hrd))
  | @comesTooLate r offer d hw =>
    rw [show (t.accept r offer d).1 = t from onRider_refused (Prod.ext rfl hw)]
    exact .inl .rfl
  | finishesUnassigned | finishesCancelled | finishesDelivered => exact hfinish.imp_right .inr
  | _ => first | exact .inl .rfl | exact .inl hrow

end

/-! ### Operations and their calls -/

/-- The call that takes the order from the rider, or delivers it. -/
def Call.Takes (rider : RiderId) (order : OrderId) : Call → Prop
  | .unassignStalled d r | .delivered r d => r = rider ∧ d = order
  | .cancel d => d = order
  | _ => False

/-- The operation is one of the call's. -/
def Op.Of (call : Call) : Op → Prop
  | .reserve d _ | .putOffering d _ _ => ∃ candidates, call = .findAndOffer d candidates
  | .releaseExpired d offer rider => call = .expireOffer d offer rider
  | .readExpired d => ∃ offer rider, call = .expireOffer d offer rider
  | .unassign d rider | .finishUnassigned d rider => call = .unassignStalled d rider
  | .readCancelled d | .cancelOffering d _ | .cancelAssigned d _ | .releaseCancelled d _
  | .finishCancelled d _ => call = .cancel d
  | .accept rider offer d | .readAccepted rider offer d | .assign rider offer d =>
    call = .acceptOffer rider offer d
  | .markPickedUp rider d | .readPickedUp rider d => call = .pickedUp rider d
  | .markDelivered rider d | .readDelivered rider d | .finishDelivered rider d =>
    call = .delivered rider d
  | .answered _ => True

theorem Call.begin_of (call : Call) : call.begin.Of call := by
  cases call with
  | findAndOffer d candidates => exact ⟨candidates, rfl⟩
  | _ => rfl

theorem Op.Of.step {cap : ℕ} {fresh : OfferId} {t t' : Tables} {op op' : Op} {call : Call}
    (hop : op.Of call) (h : opStep cap fresh t op = some (t', op')) : op'.Of call := by
  cases does h with
  | @findsNoLock order offer rider => exact ⟨offer, rider, hop⟩
  | _ => first | exact hop | trivial

theorem Op.Of.takes {op : Op} {call : Call} {rider : RiderId} {order : OrderId} (hop : op.Of call)
    (h : op.Frees rider order) : call.Takes rider order := by
  cases op with
  | finishUnassigned d r => rw [hop]; exact h
  | finishCancelled d seen => rw [hop]; exact h.2
  | finishDelivered r d => rw [hop]; exact h
  | _ => exact h.elim

/-- The offer and the order of an assignment that is to be made. -/
def Op.assignment : Op → Option (OfferId × OrderId)
  | .assign _ offer order => some (offer, order)
  | _ => none

namespace Expiry

/-! ### The system -/

structure System where
  dispatch : Dispatch.System
  /-- The call that each operation was started by. -/
  calls : List Call

def System.empty : System := ⟨.empty, []⟩

/-- The calls once an event has happened. -/
def started (calls : List Call) : Event → List Call
  | .start call => calls ++ [call]
  | _ => calls

def step (cap : ℕ) (s : System) (e : Event) : Option System :=
  (Dispatch.step cap s.dispatch e).map fun u => ⟨u, started s.calls e⟩

/-- The row of the order is with a rider, or no accept of the offer is between its two writes. -/
def Decided (s : System) (order : OrderId) (offer : OfferId) : Prop :=
  (s.dispatch.tables.deliveries order).any (fun q => taken q.state) = true ∨
    ∀ op ∈ s.dispatch.ops, op.assignment ≠ some (offer, order)

instance (s : System) (order : OrderId) (offer : OfferId) : Decidable (Decided s order offer) :=
  inferInstanceAs (Decidable (_ ∨ _))

/-- A call that expires an offer expires one that was made, to that rider for that order. -/
def Issued (s : System) : Call → Prop
  | .expireOffer order offer rider => s.dispatch.made offer = some (rider, order)
  | _ => True

instance (s : System) : (call : Call) → Decidable (Issued s call)
  | .expireOffer _ _ _ => inferInstanceAs (Decidable (_ = _))
  | .findAndOffer .. | .unassignStalled .. | .cancel .. | .acceptOffer .. | .pickedUp ..
  | .delivered .. => .isTrue trivial

/-- The order and the offer of an expiry whose next store call reads the row. -/
def reading (s : System) (pid : ℕ) : Option (OrderId × OfferId) :=
  match s.calls[pid]?, s.dispatch.ops[pid]? with
  | some (.expireOffer order offer _), some (.readExpired _) => some (order, offer)
  | _, _ => none

/-- Offers expire that were made, and no expiry reads the row between the two writes of the
offer's accept. -/
def Prompt (s : System) : Event → Prop
  | .start call => Issued s call
  | .run pid _ => ∀ e ∈ reading s pid, Decided s e.1 e.2
  | .online _ | .offline _ => True

instance (s : System) : (e : Event) → Decidable (Prompt s e)
  | .start call => (inferInstance : Decidable (Issued s call))
  | .run pid _ => (inferInstance : Decidable (∀ e ∈ reading s pid, Decided s e.1 e.2))
  | .online _ | .offline _ => .isTrue trivial

/-- The row of the order is with a rider under the offer. -/
def Made (s : System) (order : OrderId) (offer : OfferId) : Prop :=
  ∃ q, s.dispatch.tables.deliveries order = some q ∧ q.offerId = offer ∧ q.taken

/-- Between the two states the rider's lock of the offer is converted for the order. -/
def Gains (s u : System) (rider : RiderId) (order : OrderId) (offer : OfferId) : Prop :=
  ∃ pid : ℕ, s.dispatch.ops[pid]? = some (.accept rider offer order) ∧
    u.dispatch.ops[pid]? = some (.assign rider offer order)

/-- The rider has the order, unless a call takes it from him or delivers it. -/
def Kept (s : System) (rider : RiderId) (order : OrderId) : Prop :=
  s.dispatch.tables.Active rider order ∨ ∃ call ∈ s.calls, call.Takes rider order

section

variable {cap : ℕ} {s u : System} {e : Event} {rider : RiderId} {order : OrderId}
  {offer : OfferId}

/-! ### What a step can do -/

/-- Start an operation, make one store call of an operation, or change a rider's presence. -/
theorem step_cases (h : step cap s e = some u) :
    (∃ call, e = .start call ∧ u = ⟨{ s.dispatch with ops := s.dispatch.ops ++ [call.begin] },
      s.calls ++ [call]⟩) ∨
    (∃ pid fresh op t op', e = .run pid fresh ∧ s.dispatch.ops[pid]? = some op ∧
      s.dispatch.made fresh = none ∧ opStep cap fresh s.dispatch.tables op = some (t, op') ∧
      u = ⟨⟨t, record s.dispatch.made op', s.dispatch.ops.set pid op'⟩, s.calls⟩) ∨
    (∃ rider p, (e = .online rider ∨ e = .offline rider) ∧
      u = ⟨⟨s.dispatch.tables.setRider rider
        { s.dispatch.tables.riders rider with status := p }, s.dispatch.made, s.dispatch.ops⟩,
        s.calls⟩) := by
  obtain ⟨v, hv, rfl⟩ := Option.map_eq_some_iff.mp h
  rcases Dispatch.step_cases hv with ⟨call, rfl, rfl⟩ |
    ⟨pid, fresh, op, t, op', rfl, hop, hfresh, hone, rfl⟩ | ⟨rider, p, he, rfl⟩
  · exact .inl ⟨call, rfl, rfl⟩
  · exact .inr (.inl ⟨pid, fresh, op, t, op', rfl, hop, hfresh, hone, rfl⟩)
  · refine .inr (.inr ⟨rider, p, he, ?_⟩)
    rcases he with rfl | rfl <;> rfl

theorem dispatch_step (h : step cap s e = some u) :
    Dispatch.step cap s.dispatch e = some u.dispatch := by
  obtain ⟨v, hv, rfl⟩ := Option.map_eq_some_iff.mp h
  exact hv

/-! ### The invariant -/

structure Inv (s : System) : Prop where
  minted : Minted s.dispatch
  length : s.calls.length = s.dispatch.ops.length
  of {pid : ℕ} {call : Call} {op : Op} :
    s.calls[pid]? = some call → s.dispatch.ops[pid]? = some op → op.Of call
  /-- The rider of an accept that has converted has the order. -/
  assigner {rider : RiderId} {offer : OfferId} {order : OrderId} :
    Op.assign rider offer order ∈ s.dispatch.ops →
      (∃ d, s.dispatch.made offer = some (rider, d)) ∧ Kept s rider order
  /-- The rider that a row names has the order. -/
  kept {q : DeliveryRow} {order : OrderId} :
    s.dispatch.tables.deliveries order = some q → q.taken → Kept s q.riderId order

theorem inv_empty : Inv .empty where
  minted := minted_empty
  length := rfl
  of h := by cases h
  assigner h := by cases h
  kept h := by cases h

theorem Kept.step (hi : Inv s) (hk : Kept s rider order) (h : step cap s e = some u) :
    Kept u rider order := by
  rcases step_cases h with ⟨call, -, rfl⟩ |
    ⟨pid, fresh, op, t, op', -, hop, -, hone, rfl⟩ | ⟨r, p, -, rfl⟩
  · refine hk.imp_right ?_
    rintro ⟨c, hc, ht⟩
    exact ⟨c, List.mem_append_left _ hc, ht⟩
  · rcases hk with ha | hcall
    · rcases opStep_active hone rider order with hsame | ⟨-, -, -, ha'⟩ | ⟨hfrees, -⟩
      · exact .inl (hsame.mpr ha)
      · exact .inl ha'
      · have hlt : pid < s.calls.length := by
          rw [hi.length]
          exact (List.getElem?_eq_some_iff.mp hop).1
        have hcall := List.getElem?_eq_getElem hlt
        exact .inr ⟨_, List.mem_of_getElem? hcall, (hi.of hcall hop).takes hfrees⟩
    · exact .inr hcall
  · refine hk.imp_left fun ha => ?_
    show Tables.Active _ _ _
    rw [Tables.active_setRider]
    split
    · next hr => subst hr; exact ha
    · exact ha

/-- What a store call does to an offer's name, it does once. -/
theorem made_step (h : step cap s e = some u) {who : RiderId × OrderId}
    (hm : s.dispatch.made offer = some who) : u.dispatch.made offer = some who := by
  rcases step_cases h with ⟨call, -, rfl⟩ |
    ⟨pid, fresh, op, t, op', -, -, hfresh, hone, rfl⟩ | ⟨r, p, -, rfl⟩
  · exact hm
  · show record s.dispatch.made op' offer = some who
    rw [record_made hone hfresh (by rw [hm]; simp), hm]
  · exact hm

theorem Inv.step (hi : Inv s) (h : step cap s e = some u) : Inv u := by
  have hkept : ∀ {rider order}, Kept s rider order → Kept u rider order := fun hk => hk.step hi h
  have hmade : ∀ {offer who}, s.dispatch.made offer = some who → u.dispatch.made offer = some who :=
    fun hm => made_step h hm
  have hold : ∀ {rider offer order}, Op.assign rider offer order ∈ s.dispatch.ops →
      (∃ d, u.dispatch.made offer = some (rider, d)) ∧ Kept u rider order := fun ha =>
    (hi.assigner ha).imp (fun hd => hd.imp fun _ => hmade) hkept
  have hminted := hi.minted.step (dispatch_step h)
  rcases step_cases h with ⟨call, -, rfl⟩ |
    ⟨pid, fresh, op, t, op', -, hop, -, hone, rfl⟩ | ⟨r, p, -, rfl⟩
  · refine ⟨hminted, by simp [hi.length], fun {i c o} hc ho => ?_, fun ha => ?_,
      fun hq ht => hkept (hi.kept hq ht)⟩
    · rw [List.getElem?_append] at hc ho
      rw [hi.length] at hc
      split at hc
      · next hlt => rw [if_pos hlt] at ho; exact hi.of hc ho
      · next hlt =>
        rw [if_neg hlt] at ho
        cases List.mem_singleton.mp (List.mem_of_getElem? hc)
        cases List.mem_singleton.mp (List.mem_of_getElem? ho)
        exact call.begin_of
    · rcases List.mem_append.mp ha with ha | ha
      · exact hold ha
      · exact absurd (List.mem_singleton.mp ha).symm (call.begin_ne_assign _ _ _)
  · have hlt := (List.getElem?_eq_some_iff.mp hop).1
    refine ⟨hminted, by simp [hi.length], fun {i c o} hc ho => ?_,
      fun {rider offer order} ha => ?_, fun {q order} hq ht => ?_⟩
    · by_cases hpid : pid = i
      · subst hpid
        cases (List.getElem?_set_self hlt).symm.trans ho
        exact (hi.of hc hop).step hone
      · exact hi.of hc ((List.getElem?_set_ne hpid).symm.trans ho)
    · rcases List.mem_or_eq_of_mem_set ha with ha | rfl
      · exact hold ha
      · obtain ⟨rfl, ⟨d, hl⟩, -⟩ := opStep_assigns hone rfl
        refine ⟨⟨d, hmade (hi.minted.locked hl)⟩, .inl ?_⟩
        -- the set has the order: the lock was converted for it
        rcases opStep_active hone rider order with hsame | ⟨-, -, -, ha'⟩ | ⟨hfrees, -⟩
        · simp only [opStep] at hone
          split at hone
          · next hw =>
            cases hone
            exact (accept_converts hw rider order).1.mpr (.inr ⟨rfl, rfl⟩)
          · cases hone
        · exact ha'
        · exact hfrees.elim
    · rcases opStep_row (d := order) hone with hrow | ⟨row, hrow, hmv⟩
      · exact hkept (hi.kept (hrow.symm.trans hq) ht)
      · cases hrow.symm.trans hq
        cases hmv with
        | put _ => rcases ht with ht | ht | ht <;> cases ht
        | @assign rider offer q hq' hs ho =>
          -- the operation and the row name the rider of the offer
          obtain ⟨⟨d, hd⟩, hk⟩ := hi.assigner (List.mem_of_getElem? hop)
          have hr : s.dispatch.made offer = some (q.riderId, order) := ho ▸ hi.minted.row hq'
          cases hd.symm.trans hr
          exact hkept hk
        | cancel _ _ => rcases ht with ht | ht | ht <;> cases ht
        | carried hq' hs =>
          have hk := hi.kept hq' (hs.imp (·.1) fun hs => .inl hs.1)
          exact hkept hk
  · exact ⟨hminted, hi.length, hi.of, hold, fun hq ht => hkept (hi.kept hq ht)⟩

/-- The invariant holds in every reachable state. -/
theorem inv_of_run {ok : System → Event → Prop} {es : List Event}
    (h : Run (step cap) ok .empty es s) : Inv s :=
  h.invariant inv_empty fun _ _ _ hi _ hs => hi.step hs

/-! ### Offers that are over -/

/-- Nobody holds the lock of the offer, no assignment of the order under it is to come, and the row
is with nobody under it. -/
structure Over (s : System) (order : OrderId) (offer : OfferId) : Prop where
  spent : Spent s.dispatch offer
  none_to_come : ∀ op ∈ s.dispatch.ops, op.assignment ≠ some (offer, order)
  not_made : ¬ Made s order offer

/-- An offer that is over stays over, and brings the order to nobody. -/
theorem Over.step {r : RiderId} (ho : Over s order offer) (h : step cap s e = some u) :
    Over u order offer ∧ ¬ Gains s u r order offer := by
  have hspent := ho.spent.step (dispatch_step h)
  rcases step_cases h with ⟨call, -, rfl⟩ |
    ⟨pid, fresh, op, t, op', -, hop, -, hone, rfl⟩ | ⟨r, p, -, rfl⟩
  · refine ⟨⟨hspent, fun o hm => ?_, ho.not_made⟩, ?_⟩
    · rcases List.mem_append.mp hm with hm | hm
      · exact ho.none_to_come o hm
      · cases List.mem_singleton.mp hm
        cases call <;> simp [Call.begin, Op.assignment]
    · rintro ⟨i, hi, hi'⟩
      have hlt := (List.getElem?_eq_some_iff.mp hi).1
      cases hi.symm.trans ((List.getElem?_append_left hlt).symm.trans hi')
  · have hno : ∀ {r d}, op' ≠ .assign r offer d := by
      intro r d he
      obtain ⟨-, ⟨_, hl⟩, -⟩ := opStep_assigns hone he
      exact ho.spent.2 _ _ hl
    refine ⟨⟨hspent, fun o hm => ?_, ?_⟩, ?_⟩
    · rcases List.mem_or_eq_of_mem_set hm with hm | rfl
      · exact ho.none_to_come o hm
      · intro ha
        cases o with
        | assign r f d => cases ha; exact hno rfl
        | _ => cases ha
    · rintro ⟨q, hq, hoff, ht⟩
      rcases opStep_row (d := order) hone with hrow | ⟨row, hrow, hmv⟩
      · exact ho.not_made ⟨q, hrow.symm.trans hq, hoff, ht⟩
      · cases hrow.symm.trans hq
        cases hmv with
        | put _ => rcases ht with ht | ht | ht <;> cases ht
        | assign hq' hs hf =>
          subst hf
          exact ho.none_to_come _ (List.mem_of_getElem? hop) (congrArg some (Prod.ext hoff rfl))
        | cancel _ _ => rcases ht with ht | ht | ht <;> cases ht
        | carried hq' hs =>
          exact ho.not_made ⟨_, hq', hoff, hs.imp (·.1) fun hs => .inl hs.1⟩
    · rintro ⟨i, hi, hi'⟩
      by_cases hpid : pid = i
      · subst hpid
        have hlt := (List.getElem?_eq_some_iff.mp hop).1
        exact hno (Option.some.inj ((List.getElem?_set_self hlt).symm.trans hi'))
      · cases hi.symm.trans ((List.getElem?_set_ne hpid).symm.trans hi')
  · refine ⟨⟨hspent, ho.none_to_come, ho.not_made⟩, ?_⟩
    rintro ⟨i, hi, hi'⟩
    cases hi.symm.trans hi'

/-- The expiry that reads the row did not find the lock. -/
theorem opStep_reads {cap : ℕ} {fresh : OfferId} {t t' : Tables} {op : Op} {d : OrderId}
    (h : opStep cap fresh t op = some (t', .readExpired d)) :
    ∃ offer rider, op = .releaseExpired d offer rider ∧ ∀ e, ¬ t'.Locked rider offer e := by
  cases does h with
  | @findsNoLock order offer rider => exact ⟨offer, rider, rfl, fun _ => not_locked_releaseOffer⟩

/-- What expiries rely on. -/
structure Missed (s : System) : Prop where
  issued {order : OrderId} {offer : OfferId} {rider : RiderId} :
    .expireOffer order offer rider ∈ s.calls → s.dispatch.made offer = some (rider, order)
  /-- The lock that an expiry did not find is gone. -/
  spent {pid : ℕ} {order d : OrderId} {offer : OfferId} {rider : RiderId} :
    s.calls[pid]? = some (.expireOffer order offer rider) →
      s.dispatch.ops[pid]? = some (.readExpired d) → Spent s.dispatch offer

theorem Missed.step (hm : Missed s) (hi : Inv s) (hok : Prompt s e) (h : step cap s e = some u) :
    Missed u := by
  have hmade : ∀ {offer who}, s.dispatch.made offer = some who → u.dispatch.made offer = some who :=
    fun hw => made_step h hw
  have hspent : ∀ {offer}, Spent s.dispatch offer → Spent u.dispatch offer :=
    fun hs => hs.step (dispatch_step h)
  have hminted := (hi.step h).minted
  rcases step_cases h with ⟨call, rfl, rfl⟩ |
    ⟨pid, fresh, op, t, op', -, hop, -, hone, rfl⟩ | ⟨r, p, -, rfl⟩
  · refine ⟨fun hc => ?_, fun {i order d offer rider} hc ho => ?_⟩
    · rcases List.mem_append.mp hc with hc | hc
      · exact hmade (hm.issued hc)
      · cases List.mem_singleton.mp hc
        exact hok
    · rw [List.getElem?_append] at hc ho
      rw [hi.length] at hc
      split at hc
      · next hlt => rw [if_pos hlt] at ho; exact hspent (hm.spent hc ho)
      · next hlt =>
        rw [if_neg hlt] at ho
        have hbegin := List.mem_singleton.mp (List.mem_of_getElem? ho)
        cases call <;> cases hbegin
  · refine ⟨fun hc => hmade (hm.issued hc), fun {i order d offer rider} hc ho => ?_⟩
    by_cases hpid : pid = i
    · subst hpid
      have hlt := (List.getElem?_eq_some_iff.mp hop).1
      cases (List.getElem?_set_self hlt).symm.trans ho
      obtain ⟨f, r, rfl, hno⟩ := opStep_reads hone
      cases hi.of hc hop
      have hmk := hmade (hm.issued (List.mem_of_getElem? hc))
      refine ⟨by rw [hmk]; simp, fun r e hl => ?_⟩
      -- whoever holds the lock is the rider that the offer was made to
      cases hmk.symm.trans (hminted.locked hl)
      exact hno _ hl
    · exact hspent (hm.spent hc ((List.getElem?_set_ne hpid).symm.trans ho))
  · exact ⟨hm.issued, fun hc ho => hspent (hm.spent hc ho)⟩

theorem missed_empty : Missed .empty where
  issued hc := by simp [System.empty] at hc
  spent hc := by simp [System.empty] at hc

theorem missed_of_run {es : List Event} (h : Run (step cap) Prompt .empty es s) : Missed s := by
  have hboth : Inv s ∧ Missed s :=
    h.invariant (I := fun w => Inv w ∧ Missed w)
      ⟨inv_empty, missed_empty⟩
      fun _ _ _ hw hok hs => ⟨hw.1.step hs, hw.2.step hw.1 hok hs⟩
  exact hboth.2

theorem over_of_run {ok : System → Event → Prop} {es : List Event} (ho : Over s order offer)
    (h : Run (step cap) ok s es u) : Over u order offer :=
  h.invariant (I := fun w => Over w order offer) ho fun _ _ _ ho _ hs =>
    (ho.step (r := "") hs).1

/-- Where an expiry stands. -/
theorem Op.Of.expire {op : Op} (h : op.Of (.expireOffer order offer rider)) :
    op = .releaseExpired order offer rider ∨ op = .readExpired order ∨
      ∃ outcome, op = .answered outcome := by
  cases op with
  | releaseExpired d o r => cases h; exact .inl rfl
  | readExpired d =>
    obtain ⟨o, r, hcall⟩ := h
    cases hcall
    exact .inr (.inl rfl)
  | answered outcome => exact .inr (.inr ⟨outcome, rfl⟩)
  | reserve | putOffering =>
    obtain ⟨candidates, hcall⟩ := h
    cases hcall
  | _ => cases h

/-- A lock that is released has not been converted: the offer is over. -/
theorem over_of_released {pid : ℕ} {t : Tables} (hi : Inv s)
    (hop : s.dispatch.ops[pid]? = some (.releaseExpired order offer rider))
    (hw : s.dispatch.tables.releaseOffer rider offer = (t, true))
    (hu : Inv ⟨⟨t, s.dispatch.made, s.dispatch.ops.set pid (.answered .revoked)⟩, s.calls⟩) :
    Over ⟨⟨t, s.dispatch.made, s.dispatch.ops.set pid (.answered .revoked)⟩, s.calls⟩ order
      offer := by
  have hno : ∀ e, ¬ (s.dispatch.tables.releaseOffer rider offer).1.Locked rider offer e :=
    fun _ => not_locked_releaseOffer
  rw [hw] at hno
  obtain ⟨d, hl⟩ : ∃ d, s.dispatch.tables.Locked rider offer d := by
    rcases s.dispatch.tables.onRider_cases rider (fun r => r.releaseOffer offer) with
      ⟨r, hr, -⟩ | ⟨-, he⟩
    · exact (RiderState.releaseOffer_eq hr).1
    · cases he.symm.trans hw
  have hmk := hi.minted.locked hl
  refine ⟨⟨by rw [hmk]; simp, fun r e hl' => ?_⟩, fun o hm ha => ?_, ?_⟩
  · cases hmk.symm.trans (hu.minted.locked hl')
    exact hno _ hl'
  · rcases List.mem_or_eq_of_mem_set hm with hm | rfl
    · cases o with
      | assign r f d' => cases ha; exact (hi.minted.assigning hm).2 _ _ hl
      | _ => cases ha
    · cases ha
  · rintro ⟨q, hq, rfl, ht⟩
    have hrow : t.deliveries = s.dispatch.tables.deliveries := by
      have hk := @onRider_deliveries s.dispatch.tables rider fun r => r.releaseOffer q.offerId
      rwa [show s.dispatch.tables.onRider rider (fun r => r.releaseOffer q.offerId) = (t, true)
        from hw] at hk
    have hq : t.deliveries order = some q := hq
    rw [hrow] at hq
    exact (hi.minted.taken hq ht).1.2 _ _ hl

/-- An offer whose lock is gone, with no assignment to come and a row that is not taken, is
over. -/
theorem over_of_read {pid : ℕ} (hs : Spent s.dispatch offer) (hd : Decided s order offer)
    (hread : expiredBy (s.dispatch.tables.deliveries order) = .revoked) :
    Over ⟨⟨s.dispatch.tables, s.dispatch.made, s.dispatch.ops.set pid (.answered .revoked)⟩,
      s.calls⟩ order offer := by
  have hfree : ∀ q, s.dispatch.tables.deliveries order = some q → taken q.state = false := by
    intro q hq
    rw [hq] at hread
    by_contra ht
    rw [Bool.not_eq_false] at ht
    simp [expiredBy, ht] at hread
  refine ⟨hs, fun o hm ha => ?_, ?_⟩
  · rcases List.mem_or_eq_of_mem_set hm with hm | rfl
    · rcases hd with hany | hnone
      · cases hq : s.dispatch.tables.deliveries order with
        | none => rw [hq] at hany; cases hany
        | some q =>
          rw [hq] at hany
          cases (hfree q hq).symm.trans hany
      · exact hnone o hm ha
    · cases ha
  · rintro ⟨q, hq, -, ht⟩
    have hq := hfree q hq
    rcases ht with ht | ht | ht <;> rw [ht] at hq <;> cases hq

/-! ### The verdict -/

/-- What the answer of the operation promises about the offer from this state on. -/
def Final (cap : ℕ) (u : System) (pid : ℕ) (order : OrderId) (offer : OfferId) : Prop :=
  (u.dispatch.ops[pid]? = some (.answered .revoked) →
    ∀ es v, Run (step cap) Always u es v →
      ¬ Made v order offer ∧ ∀ e w rider, step cap v e = some w → ¬ Gains v w rider order offer) ∧
  ∀ rider, u.dispatch.ops[pid]? = some (.answered (.alreadyAssigned rider)) →
    (∃ q, u.dispatch.tables.deliveries order = some q ∧ q.riderId = rider ∧ q.taken) ∧
      Kept u rider order

/-- **The verdict is final**, in a run in which every expiry reads a decided row. -/
theorem expiry_final (cap : ℕ) {es : List Event} {pid : ℕ} {fresh : OfferId}
    (h : Run (step cap) Prompt .empty es s)
    (hcall : s.calls[pid]? = some (.expireOffer order offer rider))
    (hok : Prompt s (.run pid fresh)) (hstep : step cap s (.run pid fresh) = some u) :
    Final cap u pid order offer := by
  have hi := inv_of_run h
  have hu := hi.step hstep
  have hover : Over u order offer → ∀ es v, Run (step cap) Always u es v →
      ¬ Made v order offer ∧
        ∀ e w rider, step cap v e = some w → ¬ Gains v w rider order offer := by
    intro ho es v hv
    have hv := over_of_run ho hv
    exact ⟨hv.not_made, fun e w rider hw => (hv.step hw).2⟩
  rcases step_cases hstep with ⟨call, he, -⟩ |
    ⟨i, f, op, t, op', he, hop, -, hone, rfl⟩ | ⟨r, p, he, -⟩
  · cases he
  · cases he
    have hlt := (List.getElem?_eq_some_iff.mp hop).1
    have hself := List.getElem?_set_self (a := op') hlt
    rcases Op.Of.expire (hi.of hcall hop) with rfl | rfl | ⟨outcome, rfl⟩
    · -- the lock is there, or the row is to be read
      simp only [opStep] at hone
      split at hone <;> next hw =>
        cases hone
        refine ⟨fun ha => ?_, fun r ha => ?_⟩
        · first
          | exact hover (over_of_released hi hop hw hu)
          | cases hself.symm.trans ha
        · cases hself.symm.trans ha
    · cases hone
      constructor
      · intro ha
        have hread := Op.answered.inj (Option.some.inj (hself.symm.trans ha))
        have hd : Decided s order offer := hok (order, offer) (by
          show reading s pid = _
          unfold reading
          rw [hcall, hop])
        have ho : Over ⟨⟨s.dispatch.tables, s.dispatch.made,
            s.dispatch.ops.set pid (.answered .revoked)⟩, s.calls⟩ order offer :=
          over_of_read ((missed_of_run h).spent hcall hop) hd hread
        rw [← hread] at ho
        exact hover ho
      · intro r ha
        have hread := Op.answered.inj (Option.some.inj (hself.symm.trans ha))
        -- only a row that is taken is answered with a rider
        rcases Option.eq_none_or_eq_some (s.dispatch.tables.deliveries order) with
          hrow | ⟨q, hrow⟩
        · rw [hrow] at hread
          cases hread
        · rw [hrow] at hread
          simp only [expiredBy] at hread
          split at hread
          · next ht =>
            cases hread
            have ht : q.taken := by simpa [taken, DeliveryRow.taken] using ht
            exact ⟨⟨q, hrow, rfl, ht⟩, (hi.kept hrow ht).step hi hstep⟩
          · cases hread
    · cases hone
  · rcases he with he | he <;> cases he

/-- An offer to `r1` that nobody has accepted, with its expiry about to start. -/
def unanswered : List Event :=
  [.online "r1", .start (.findAndOffer "d" ["r1"]), .run 0 "o1", .run 0 "",
   .start (.expireOffer "d" "o1" "r1")]

theorem expiry_final_unanswered : ∃ s u, Run (step 2) Prompt .empty unanswered s ∧
    step 2 s (.run 1 "") = some u ∧ u.dispatch.ops[1]? = some (.answered .revoked) ∧
      Final 2 u 1 "d" "o1" := by
  obtain ⟨s, hs, hp⟩ : ∃ s, Run (step 2) Prompt .empty unanswered s ∧
      decide (s.calls[1]? = some (Call.expireOffer "d" "o1" "r1") ∧ Prompt s (.run 1 "") ∧
        (step 2 s (.run 1 "")).any (fun u =>
          decide (u.dispatch.ops[1]? = some (Op.answered .revoked))) = true) = true :=
    exists_run_of_execOk (by decide)
  obtain ⟨hcall, hok, hany⟩ := of_decide_eq_true hp
  obtain ⟨u, hu, ha⟩ := (Option.any_eq_true _ _).mp hany
  exact ⟨s, u, hs, hu, of_decide_eq_true ha, expiry_final 2 hs hcall hok hu⟩

/-- The accept has converted the lock when the expiry releases, and has yet to assign when it
reads. -/
def crossed : List Event :=
  [.online "r1", .start (.findAndOffer "d" ["r1"]), .run 0 "o1", .run 0 "",
   .start (.acceptOffer "r1" "o1" "d"), .run 1 "",
   .start (.expireOffer "d" "o1" "r1"), .run 2 ""]

/-- The expiry answers `revoked`, and the offer then assigns the row. -/
theorem revoked_and_assigned :
    ¬ ∀ (cap : ℕ) (es : List Event) (s u : System) (pid : ℕ) (fresh order offer rider),
      Run (step cap) Always .empty es s →
      s.calls[pid]? = some (.expireOffer order offer rider) →
      s.dispatch.made offer = some (rider, order) →
      step cap s (.run pid fresh) = some u → Final cap u pid order offer := by
  intro h
  obtain ⟨s, hs, hp⟩ : ∃ s, Run (step 2) Always .empty crossed s ∧
      decide (s.calls[2]? = some (Call.expireOffer "d" "o1" "r1") ∧
        s.dispatch.made "o1" = some ("r1", "d") ∧
        (step 2 s (.run 2 "")).any (fun u =>
          decide (u.dispatch.ops[2]? = some (Op.answered .revoked) ∧
            (step 2 u (.run 1 "")).any (fun v =>
              decide (v.dispatch.tables.deliveries "d" = some ⟨.assigned, "r1", "o1"⟩)) =
                true)) = true) = true :=
    exists_run_of_execOk (by decide)
  obtain ⟨hcall, hmade, hany⟩ := of_decide_eq_true hp
  obtain ⟨u, hu, ha⟩ := (Option.any_eq_true _ _).mp hany
  obtain ⟨hrevoked, hany⟩ := of_decide_eq_true ha
  obtain ⟨v, hv, hrow⟩ := (Option.any_eq_true _ _).mp hany
  have hfinal := (h 2 _ s u 2 "" "d" "o1" "r1" hs hcall hmade hu).1 hrevoked
  have hrun : Run (step 2) Always u [.run 1 ""] v := run_iff_exec.mpr (by simp [exec, hv])
  exact (hfinal _ v hrun).1 ⟨_, of_decide_eq_true hrow, rfl, .inl rfl⟩

end

end Expiry

end Dispatch
