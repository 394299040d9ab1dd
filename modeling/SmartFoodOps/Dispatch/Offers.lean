/-
Offer ids, over any run of dispatch.

An offer id is minted once, for one rider and one order.  Its lock is taken when it is
minted and never again, so at most one accept converts it, and at most one row move
assigns the order under it.

* `opStep_locked`, `opStep_row` — what one store call can do to the locks and to a row;
* `Spent`, `Converted` — an offer whose lock is gone, and whose assignment is over too;
* `minted_of_run` — locks, rows and operations name the rider and the order that their
  offer was minted for, and an order that is taken was taken under a converted offer.
-/
import SmartFoodOps.Dispatch.Agreement

open Machine

namespace Dispatch

/-- The rider holds the lock of the offer for the order. -/
def Tables.Locked (t : Tables) (rider : RiderId) (offer : OfferId) (order : OrderId) : Prop :=
  (t.riders rider).offerLock = some ⟨offer, order⟩

instance (t : Tables) (rider : RiderId) (offer : OfferId) (order : OrderId) :
    Decidable (t.Locked rider offer order) :=
  inferInstanceAs (Decidable (_ = _))

/-! ### What one store call changes -/

section

variable {t t' : Tables} {cap : ℕ} {fresh offer : OfferId} {op op' : Op} {rider : RiderId}
  {d : OrderId}

theorem locked_setRider {r : RiderId} {s : RiderState} :
    (t.setRider r s).Locked rider offer d ↔
      if rider = r then s.offerLock = some ⟨offer, d⟩ else t.Locked rider offer d := by
  by_cases h : rider = r
  · subst h
    simp [Tables.Locked]
  · simp [Tables.Locked, h]

/-- A write on a rider that takes no lock. -/
theorem locked_of_onRider {r : RiderId} {write : RiderState → Option RiderState}
    (hw : ∀ s s', write s = some s' → s'.offerLock = none ∨ s'.offerLock = s.offerLock)
    (h : (t.onRider r write).1.Locked rider offer d) : t.Locked rider offer d := by
  rcases t.onRider_cases r write with ⟨s, hs, he⟩ | ⟨-, he⟩
  · rw [he, locked_setRider] at h
    split at h
    · next hr =>
      subst hr
      rcases hw _ _ hs with hn | hk
      · rw [hn] at h; cases h
      · rw [hk] at h; exact h
    · exact h
  · rwa [he] at h

theorem locked_of_releaseOffer {r : RiderId} {o : OfferId}
    (h : (t.releaseOffer r o).1.Locked rider offer d) : t.Locked rider offer d :=
  locked_of_onRider (fun _ _ hs => .inl (RiderState.releaseOffer_eq hs).2.1) h

theorem locked_of_finishDelivery {r : RiderId} {o : OrderId}
    (h : (t.finishDelivery r o).1.Locked rider offer d) : t.Locked rider offer d :=
  locked_of_onRider (fun _ _ hs => .inr (RiderState.finishDelivery_eq hs).2.1) h

theorem locked_of_accept {r : RiderId} {o : OfferId} {e : OrderId}
    (h : (t.accept r o e).1.Locked rider offer d) : t.Locked rider offer d :=
  locked_of_onRider (fun _ _ hs => .inl (RiderState.accept_eq hs).2.1) h

@[simp] theorem locked_onDelivery {e : OrderId} {write : Option DeliveryRow → Option DeliveryRow} :
    (t.onDelivery e write).1.Locked rider offer d ↔ t.Locked rider offer d := by
  rcases t.onDelivery_cases e write with ⟨row, -, he⟩ | ⟨-, he⟩
  · rw [he]
    exact Iff.rfl
  · rw [he]

/-- A release leaves the rider without a lock of the offer. -/
theorem not_locked_releaseOffer : ¬ (t.releaseOffer rider offer).1.Locked rider offer d := by
  intro h
  rcases t.onRider_cases rider (fun s => s.releaseOffer offer) with ⟨s, hs, he⟩ | ⟨hn, he⟩
  · rw [Tables.releaseOffer, he, locked_setRider, if_pos rfl,
      (RiderState.releaseOffer_eq hs).2.1] at h
    cases h
  · rw [Tables.releaseOffer, he] at h
    exact RiderState.releaseOffer_eq_none hn d h

theorem not_locked_accept (h : t.accept rider offer d = (t', true)) (e : OrderId) :
    ¬ t'.Locked rider offer e := by
  intro hl
  rcases t.onRider_cases rider (fun s => s.accept offer d) with ⟨s, hs, he⟩ | ⟨-, he⟩
  · cases he.symm.trans h
    rw [locked_setRider, if_pos rfl, (RiderState.accept_eq hs).2.1] at hl
    cases hl
  · cases he.symm.trans h

/-- **Locks.**  A store call takes no lock, except that a reservation takes the lock of
the freshly minted offer. -/
theorem opStep_locked (h : opStep cap fresh t op = some (t', op')) (hl : t'.Locked rider offer d) :
    t.Locked rider offer d ∨
      (∃ candidates, op = .reserve d (rider :: candidates)) ∧ offer = fresh ∧
        op' = .putOffering d rider offer := by
  cases does h with
  | @reserves e r candidates hr =>
    rcases t.onRider_cases r (fun s => s.reserve fresh e cap) with ⟨s, hs, he⟩ | ⟨-, he⟩
    · rw [Tables.reserve, he, locked_setRider] at hl
      split at hl
      · next hr =>
        subst hr
        rw [(RiderState.reserve_eq hs).2.1] at hl
        cases hl
        exact .inr ⟨⟨candidates, rfl⟩, rfl, rfl⟩
      · exact .inl hl
    · rw [Tables.reserve, he] at hr
      cases hr
  | @passesOver e r candidates hr =>
    rcases t.onRider_cases r (fun s => s.reserve fresh e cap) with ⟨s, -, he⟩ | ⟨-, he⟩
    · rw [Tables.reserve, he] at hr
      cases hr
    · rw [Tables.reserve, he] at hl
      exact .inl hl
  | releases | findsNoLock | releasesCancelled => exact .inl (locked_of_releaseOffer hl)
  | finishesUnassigned | finishesCancelled | finishesDelivered =>
    exact .inl (locked_of_finishDelivery hl)
  | accepts | comesTooLate => exact .inl (locked_of_accept hl)
  | _ => first | exact .inl hl | exact .inl (locked_onDelivery.mp hl)

/-- What a store call, which goes on as the second operation, does to the row of `d`. -/
inductive Moves (d : OrderId) (row : Option DeliveryRow) : Op → Op → DeliveryRow → Prop
  | put {rider : RiderId} {offer : OfferId} (hrow : ∀ q ∈ row, q.state = .offering) :
      Moves d row (.putOffering d rider offer) (.answered (.offered offer rider))
        ⟨.offering, rider, offer⟩
  | assign {rider : RiderId} {offer : OfferId} {q : DeliveryRow} (hq : row = some q)
      (hs : q.state = .offering) (ho : q.offerId = offer) :
      Moves d row (.assign rider offer d) (.answered .assigned) { q with state := .assigned }
  | cancel {seen : Option DeliveryRow} {q : DeliveryRow} (hq : row = some q)
      (hs : q.state = .offering) :
      Moves d row (.cancelOffering d seen) (freeing d seen) { q with state := .cancelled }
  | carried {op op' : Op} {q : DeliveryRow} {st : DeliveryState} (hq : row = some q)
      (hs : q.state = .assigned ∧ (st = .pickedUp ∨ st = .offering ∨ st = .cancelled) ∨
        q.state = .pickedUp ∧ st = .delivered) :
      Moves d row op op' { q with state := st }

/-- A conditional write on a delivery, seen at one order. -/
theorem onDelivery_row (e : OrderId) (write : Option DeliveryRow → Option DeliveryRow) :
    (t.onDelivery e write).1.deliveries d = t.deliveries d ∨
      e = d ∧ (t.onDelivery e write).2 = true ∧
        ∃ row, write (t.deliveries d) = some row ∧
          (t.onDelivery e write).1.deliveries d = some row := by
  rcases t.onDelivery_cases e write with ⟨row, hw, he⟩ | ⟨-, he⟩
  · rw [he]
    by_cases hd : e = d
    · subst hd
      exact .inr ⟨rfl, rfl, row, hw, Function.update_self ..⟩
    · exact .inl (Function.update_of_ne (Ne.symm hd) _ _)
  · rw [he]
    exact .inl rfl

@[simp] theorem onRider_deliveries (r : RiderId) (write : RiderState → Option RiderState) :
    (t.onRider r write).1.deliveries = t.deliveries := by
  rcases t.onRider_cases r write with ⟨s, -, he⟩ | ⟨-, he⟩ <;> rw [he]
  rfl

/-- **Rows.**  A store call leaves the row of an order alone, or makes one of the moves. -/
theorem opStep_row (h : opStep cap fresh t op = some (t', op')) :
    t'.deliveries d = t.deliveries d ∨
      ∃ row, t'.deliveries d = some row ∧ Moves d (t.deliveries d) op op' row := by
  have hwrites := fun e write => onDelivery_row (t := t) (d := d) e write
  cases does h with
  | @puts e r o =>
    rcases hwrites e fun row => DeliveryStore.putOffering row r o with
      hk | ⟨rfl, -, row, hw, hrow⟩
    · exact .inl hk
    · obtain ⟨rfl, hq⟩ := DeliveryStore.putOffering_eq hw
      exact .inr ⟨_, hrow, .put hq⟩
  | @assigns r o e =>
    rcases hwrites e fun row => DeliveryStore.assign row o with hk | ⟨rfl, -, row, hw, hrow⟩
    · exact .inl hk
    · obtain ⟨q, hq, hs, ho, rfl⟩ := DeliveryStore.assign_eq hw
      exact .inr ⟨_, hrow, .assign hq hs ho⟩
  | @unassigns e r | @findsPickedUp e r =>
    rcases hwrites e fun row => DeliveryStore.unassign row r with hk | ⟨rfl, -, row, hw, hrow⟩
    · exact .inl hk
    · obtain ⟨q, hq, hs, -, rfl⟩ := DeliveryStore.unassign_eq hw
      exact .inr ⟨_, hrow, .carried hq (.inl ⟨hs, .inr (.inl rfl)⟩)⟩
  | @cancelsUnseen e | @cancelsOffering e seen | @findsNoOffering e seen hw =>
    rcases hwrites e fun row => DeliveryStore.cancelFrom row .offering with
      hk | ⟨rfl, happlied, row, hrow, hk⟩
    · exact .inl hk
    · obtain ⟨q, hq, hs, rfl⟩ := DeliveryStore.cancelFrom_eq hrow
      first | exact .inr ⟨_, hk, .cancel hq hs⟩ | cases happlied.symm.trans hw
  | @cancelsUnseenAssigned e | @cancelsAssigned e seen | @keeps e seen =>
    rcases hwrites e fun row => DeliveryStore.cancelFrom row .assigned with
      hk | ⟨rfl, -, row, hw, hrow⟩
    · exact .inl hk
    · obtain ⟨q, hq, hs, rfl⟩ := DeliveryStore.cancelFrom_eq hw
      exact .inr ⟨_, hrow, .carried hq (.inl ⟨hs, .inr (.inr rfl)⟩)⟩
  | @marksPickedUp r e | @findsNotAssigned r e =>
    rcases hwrites e fun row => DeliveryStore.markPickedUp row r with
      hk | ⟨rfl, -, row, hw, hrow⟩
    · exact .inl hk
    · obtain ⟨q, hq, hs, -, rfl⟩ := DeliveryStore.markPickedUp_eq hw
      exact .inr ⟨_, hrow, .carried hq (.inl ⟨hs, .inl rfl⟩)⟩
  | @marksDelivered r e | @findsNotPickedUp r e =>
    rcases hwrites e fun row => DeliveryStore.markDelivered row r with
      hk | ⟨rfl, -, row, hw, hrow⟩
    · exact .inl hk
    · obtain ⟨q, hq, hs, -, rfl⟩ := DeliveryStore.markDelivered_eq hw
      exact .inr ⟨_, hrow, .carried hq (.inr ⟨hs, rfl⟩)⟩
  | _ => first | exact .inl rfl | exact .inl (congrFun (onRider_deliveries ..) d)

/-- Where the operations that assign come from, and that they take their lock with them. -/
theorem opStep_assigns {e : OrderId} (h : opStep cap fresh t op = some (t', op'))
    (ha : op' = .assign rider offer e) :
    op = .accept rider offer e ∧ (∃ d, t.Locked rider offer d) ∧
      ∀ d, ¬ t'.Locked rider offer d := by
  subst ha
  cases does h with
  | accepts hw =>
    refine ⟨rfl, ?_, not_locked_accept (Prod.ext rfl hw)⟩
    rcases t.onRider_cases rider (fun s => s.accept offer e) with ⟨s, hs, he⟩ | ⟨-, he⟩
    · exact (RiderState.accept_eq hs).1
    · rw [Tables.accept, he] at hw
      cases hw

/-- Where the operations that put an offer come from. -/
theorem opStep_puts {e : OrderId} (h : opStep cap fresh t op = some (t', op'))
    (hp : op' = .putOffering e rider offer) :
    (∃ candidates, op = .reserve e (rider :: candidates)) ∧ offer = fresh ∧
      ((t.riders rider).reserve fresh e cap).isSome := by
  subst hp
  cases does h with
  | reserves hr =>
    refine ⟨⟨_, rfl⟩, rfl, ?_⟩
    rcases t.onRider_cases rider (fun s => s.reserve fresh e cap) with ⟨s, hs, -⟩ | ⟨-, he⟩
    · rw [hs]
      rfl
    · rw [Tables.reserve, he] at hr
      cases hr

end

/-! ### Offers whose lock is gone -/

/-- The offer was made, and nobody holds its lock. -/
def Spent (s : System) (offer : OfferId) : Prop :=
  s.made offer ≠ none ∧ ∀ rider d, ¬ s.tables.Locked rider offer d

/-- Nor is an assignment under it to come. -/
def Converted (s : System) (offer : OfferId) : Prop :=
  Spent s offer ∧ ∀ op ∈ s.ops, ∀ rider d, op ≠ .assign rider offer d

section

variable {s u : System} {cap pid : ℕ} {fresh offer : OfferId} {op op' : Op} {t : Tables}

/-- Ids are not minted twice. -/
theorem record_made (h : opStep cap fresh s.tables op = some (t, op')) (hfresh : s.made fresh = none)
    (hm : s.made offer ≠ none) : record s.made op' offer = s.made offer := by
  cases op' with
  | putOffering e rider o =>
    obtain ⟨-, rfl, -⟩ := opStep_puts h rfl
    refine Function.update_of_ne ?_ _ _
    rintro rfl
    exact hm hfresh
  | _ => rfl

theorem Spent.run (h : opStep cap fresh s.tables op = some (t, op')) (hfresh : s.made fresh = none)
    (hs : Spent s offer) : Spent ⟨t, record s.made op', s.ops.set pid op'⟩ offer := by
  refine ⟨?_, fun rider d hl => ?_⟩
  · show record s.made op' offer ≠ none
    rw [record_made h hfresh hs.1]
    exact hs.1
  · rcases opStep_locked h hl with hold | ⟨-, rfl, -⟩
    · exact hs.2 rider d hold
    · exact hs.1 hfresh

theorem Spent.step {e : Event} (h : step cap s e = some u) (hs : Spent s offer) :
    Spent u offer := by
  rcases step_cases h with ⟨call, -, rfl⟩ | ⟨pid, fresh, op, t, op', -, -, hfresh, hop, rfl⟩ |
    ⟨rider, p, -, rfl⟩
  · exact hs
  · exact hs.run hop hfresh
  · refine ⟨hs.1, fun r d hl => hs.2 r d ?_⟩
    rw [locked_setRider] at hl
    split at hl
    · next hr => subst hr; exact hl
    · exact hl

theorem Call.begin_ne_assign (call : Call) (rider : RiderId) (offer : OfferId) (d : OrderId) :
    call.begin ≠ .assign rider offer d := by
  cases call <;> nofun

theorem Call.begin_ne_putOffering (call : Call) (rider : RiderId) (offer : OfferId)
    (d : OrderId) : call.begin ≠ .putOffering d rider offer := by
  cases call <;> nofun

theorem Converted.run (h : opStep cap fresh s.tables op = some (t, op'))
    (hfresh : s.made fresh = none) (hc : Converted s offer) :
    Converted ⟨t, record s.made op', s.ops.set pid op'⟩ offer := by
  refine ⟨hc.1.run h hfresh, fun o ho rider d he => ?_⟩
  rcases List.mem_or_eq_of_mem_set ho with ho | rfl
  · exact hc.2 o ho rider d he
  · obtain ⟨-, ⟨e, hl⟩, -⟩ := opStep_assigns h he
    exact hc.1.2 rider e hl

theorem Converted.step {e : Event} (h : step cap s e = some u) (hc : Converted s offer) :
    Converted u offer := by
  refine ⟨hc.1.step h, ?_⟩
  rcases step_cases h with ⟨call, -, rfl⟩ | ⟨pid, fresh, op, t, op', -, -, hfresh, hop, rfl⟩ |
    ⟨rider, p, -, rfl⟩
  · intro o ho rider d
    rcases List.mem_append.mp ho with ho | ho
    · exact hc.2 o ho rider d
    · cases List.mem_singleton.mp ho
      exact call.begin_ne_assign rider offer d
  · have hrun : Converted ⟨t, record s.made op', s.ops.set pid op'⟩ offer := hc.run hop hfresh
    exact hrun.2
  · exact hc.2

end

/-! ### The invariant -/

/-- The row is with a rider, or was brought by one. -/
def DeliveryRow.taken (q : DeliveryRow) : Prop :=
  q.state = .assigned ∨ q.state = .pickedUp ∨ q.state = .delivered

/-- Everything names the rider and the order of its offer, and an offer converts once. -/
structure Minted (s : System) : Prop where
  locked {rider : RiderId} {offer : OfferId} {d : OrderId} :
    s.tables.Locked rider offer d → s.made offer = some (rider, d)
  putting {rider : RiderId} {offer : OfferId} {d : OrderId} :
    Op.putOffering d rider offer ∈ s.ops → s.made offer = some (rider, d)
  row {q : DeliveryRow} {d : OrderId} :
    s.tables.deliveries d = some q → s.made q.offerId = some (q.riderId, d)
  assigning {rider : RiderId} {offer : OfferId} {d : OrderId} :
    Op.assign rider offer d ∈ s.ops → Spent s offer
  once {rider rider' : RiderId} {offer : OfferId} {d d' : OrderId} {i j : ℕ} :
    s.ops[i]? = some (.assign rider offer d) → s.ops[j]? = some (.assign rider' offer d') → i = j
  taken {q : DeliveryRow} {d : OrderId} :
    s.tables.deliveries d = some q → q.taken → Converted s q.offerId

section

variable {s u : System} {cap : ℕ}

theorem minted_empty : Minted .empty where
  locked h := nomatch h
  putting h := nomatch h
  row h := nomatch h
  assigning h := nomatch h
  once h := nomatch h
  taken h := nomatch h

/-- The operation that assigns under an offer is the only one. -/
theorem Minted.converted_of_assigned {pid : ℕ} {fresh offer : OfferId} {rider : RiderId}
    {d : OrderId} {t : Tables} {op' : Op} (hm : Minted s) (hfresh : s.made fresh = none)
    (hop : s.ops[pid]? = some (.assign rider offer d))
    (h : opStep cap fresh s.tables (.assign rider offer d) = some (t, op')) :
    Converted ⟨t, record s.made op', s.ops.set pid op'⟩ offer := by
  refine ⟨(hm.assigning (List.mem_of_getElem? hop)).run h hfresh, fun o ho r e he => ?_⟩
  subst he
  obtain ⟨i, hi⟩ := List.mem_iff_getElem?.mp ho
  show False
  by_cases hpid : pid = i
  · subst hpid
    cases h
    rw [List.getElem?_set_self (List.getElem?_eq_some_iff.mp hop).1] at hi
    cases hi
  · rw [List.getElem?_set_ne hpid] at hi
    exact hpid (hm.once hop hi)

/-- **One step** keeps the invariant. -/
theorem Minted.step {e : Event} (hm : Minted s) (h : step cap s e = some u) : Minted u := by
  have hspent : ∀ {offer}, Spent s offer → Spent u offer := fun hs => hs.step h
  have hconv : ∀ {offer}, Converted s offer → Converted u offer := fun hc => hc.step h
  rcases step_cases h with ⟨call, -, rfl⟩ |
    ⟨pid, fresh, op, t, op', -, hop, hfresh, hone, rfl⟩ | ⟨r, p, -, rfl⟩
  · refine ⟨hm.locked, fun hp => ?_, hm.row, fun ha => ?_, fun {_ _ _ _ _ i j} hi hj => ?_,
      fun hq ht => hconv (hm.taken hq ht)⟩
    · rcases List.mem_append.mp hp with hp | hp
      · exact hm.putting hp
      · exact absurd (List.mem_singleton.mp hp).symm (call.begin_ne_putOffering _ _ _)
    · rcases List.mem_append.mp ha with ha | ha
      · exact hm.assigning ha
      · exact absurd (List.mem_singleton.mp ha).symm (call.begin_ne_assign _ _ _)
    · have hold : ∀ {k : ℕ} {r o d}, (s.ops ++ [call.begin])[k]? = some (Op.assign r o d) →
          s.ops[k]? = some (Op.assign r o d) := by
        intro k r o d hk
        rw [List.getElem?_append] at hk
        split at hk
        · exact hk
        · exact absurd (List.mem_singleton.mp (List.mem_of_getElem? hk)).symm
            (call.begin_ne_assign _ _ _)
      exact hm.once (hold hi) (hold hj)
  · have hmade : ∀ {offer who}, s.made offer = some who → record s.made op' offer = some who := by
      intro offer who hw
      rw [record_made hone hfresh (by simp [hw]), hw]
    have hnew : ∀ {rider offer d}, op' = .putOffering d rider offer →
        record s.made op' offer = some (rider, d) := by
      rintro rider offer d rfl
      exact Function.update_self ..
    refine ⟨fun {rider offer d} hl => ?_, fun {rider offer d} hp => ?_, fun {q d} hq => ?_,
      fun {rider offer d} ha => ?_, fun {_ _ offer _ _ i j} hi hj => ?_, fun {q d} hq ht => ?_⟩
    · rcases opStep_locked hone hl with hold | ⟨-, -, hop'⟩
      · exact hmade (hm.locked hold)
      · exact hnew hop'
    · rcases List.mem_or_eq_of_mem_set hp with hp | hp
      · exact hmade (hm.putting hp)
      · exact hnew hp.symm
    · rcases opStep_row (d := d) hone with hrow | ⟨row, hrow, hmv⟩
      · exact hmade (hm.row (hrow.symm.trans hq))
      · cases hrow.symm.trans hq
        cases hmv with
        | put hrow => exact hmade (hm.putting (List.mem_of_getElem? hop))
        | assign hq' _ _ =>
          have hrow := hm.row hq'
          exact hmade hrow
        | cancel hq' _ =>
          have hrow := hm.row hq'
          exact hmade hrow
        | carried hq' _ =>
          have hrow := hm.row hq'
          exact hmade hrow
    · rcases List.mem_or_eq_of_mem_set ha with ha | ha
      · exact hspent (hm.assigning ha)
      · obtain ⟨-, ⟨e, hl⟩, hno⟩ := opStep_assigns hone ha.symm
        -- the lock was the rider's, and it is gone
        have hmk := hm.locked hl
        refine ⟨?_, fun r' d' hl' => ?_⟩
        · show record s.made op' offer ≠ none
          rw [hmade hmk]
          nofun
        · rcases opStep_locked hone hl' with hold | ⟨-, -, hop'⟩
          · cases hmk.symm.trans (hm.locked hold)
            exact hno _ hl'
          · rw [hop'] at ha
            cases ha
    · -- a second assignment would convert a lock that is gone
      have hone' : ∀ {k : ℕ} {r d}, (s.ops.set pid op')[k]? = some (Op.assign r offer d) →
          k = pid ∧ op' = Op.assign r offer d ∨ s.ops[k]? = some (Op.assign r offer d) := by
        intro k r d hk
        by_cases hkp : pid = k
        · subst hkp
          rw [List.getElem?_set_self (List.getElem?_eq_some_iff.mp hop).1] at hk
          exact .inl ⟨rfl, Option.some.inj hk⟩
        · rw [List.getElem?_set_ne hkp] at hk
          exact .inr hk
      have hnot : ∀ {k : ℕ} {r r' d d'}, op' = .assign r offer d →
          s.ops[k]? = some (Op.assign r' offer d') → False := by
        intro k r r' d d' hop' hk
        obtain ⟨-, ⟨e, hl⟩, -⟩ := opStep_assigns hone hop'
        exact (hm.assigning (List.mem_of_getElem? hk)).2 _ _ hl
      rcases hone' hi with ⟨hip, hi'⟩ | hi' <;> rcases hone' hj with ⟨hjp, hj'⟩ | hj'
      · rw [hip, hjp]
      · exact (hnot hi' hj').elim
      · exact (hnot hj' hi').elim
      · exact hm.once hi' hj'
    · rcases opStep_row (d := d) hone with hrow | ⟨row, hrow, hmv⟩
      · exact hconv (hm.taken (hrow.symm.trans hq) ht)
      · cases hrow.symm.trans hq
        cases hmv with
        | put hrow => rcases ht with ht | ht | ht <;> cases ht
        | assign hq' hs ho =>
          subst ho
          exact hm.converted_of_assigned hfresh hop hone
        | cancel hq' hs => rcases ht with ht | ht | ht <;> cases ht
        | carried hq' hs =>
          have hc := hm.taken hq' (hs.imp (·.1) fun hs => .inl hs.1)
          exact hconv hc
  · refine ⟨fun {rider offer d} hl => ?_, hm.putting, hm.row, fun ha => hspent (hm.assigning ha),
      hm.once, fun hq ht => hconv (hm.taken hq ht)⟩
    rw [locked_setRider] at hl
    split at hl
    · next hr => subst hr; exact hm.locked hl
    · exact hm.locked hl

end

end Dispatch
