/-
Do the two tables agree about who carries an order?

An assignment is two conditional writes: `rider_state` converts the lock into a
member of `active_deliveries`, then `deliveries` moves the row to ASSIGNED, and
the answer of the second write is ignored.  Between the two, and between a
revoke's write and its clean-up, the tables disagree; the invariant says who is
going to settle it.

* `Held` — the tables agree about a rider and an order, up to an operation in
  flight that settles the difference;
* `opStep_held` — every store call of a sound schedule preserves it;
* `AllHeld.agree` — hence the tables agree whenever nothing is in flight;
* `opStep_assigned` — an accept answered `assigned` in time has its row.
-/
import SmartFoodOps.Dispatch.Interleaving

open Machine

namespace Dispatch

/-! ### What the tables say about a rider and an order -/

namespace Tables

def Active (t : Tables) (rider : RiderId) (order : OrderId) : Prop :=
  order ∈ (t.riders rider).activeDeliveries

def Carried (t : Tables) (rider : RiderId) (order : OrderId) : Prop :=
  ∃ row, t.deliveries order = some row ∧ row.carriedBy rider

/-- The row of the order names the rider. -/
def Names (t : Tables) (rider : RiderId) (order : OrderId) : Prop :=
  ∃ row, t.deliveries order = some row ∧ row.riderId = rider

variable {t : Tables} {rider : RiderId} {order : OrderId}

theorem active_setRider {r : RiderId} {s : RiderState} :
    (t.setRider r s).Active rider order ↔
      if rider = r then order ∈ s.activeDeliveries else t.Active rider order := by
  by_cases h : rider = r
  · subst h
    simp [Active]
  · simp [Active, h]

theorem carried_setDelivery {d : OrderId} {row : DeliveryRow} :
    (t.setDelivery d row).Carried rider order ↔
      if order = d then row.carriedBy rider else t.Carried rider order := by
  by_cases h : order = d
  · subst h
    simp [Carried]
  · simp [Carried, h]

theorem carried_iff {row : DeliveryRow} (h : t.deliveries order = some row) :
    t.Carried rider order ↔ row.carriedBy rider := by
  simp [Carried, h]

end Tables

/-! ### What one store call changes -/

/-- The two tables say about every rider and order what they said before. -/
def Same (t t' : Tables) : Prop :=
  ∀ rider order, (t'.Active rider order ↔ t.Active rider order) ∧
    (t'.Carried rider order ↔ t.Carried rider order)

/-- Nobody carries the order any more. -/
def Dropped (t t' : Tables) (d : OrderId) : Prop :=
  ∀ rider order, (t'.Active rider order ↔ t.Active rider order) ∧
    (t'.Carried rider order ↔ t.Carried rider order ∧ d ≠ order)

/-- The order is out of the rider's set. -/
def Freed (t t' : Tables) (r : RiderId) (d : OrderId) : Prop :=
  ∀ rider order, (t'.Active rider order ↔ t.Active rider order ∧ ¬ (r = rider ∧ d = order)) ∧
    (t'.Carried rider order ↔ t.Carried rider order)

/-- Nothing is dropped when nobody carries the order. -/
theorem Dropped.same {t t' : Tables} {d : OrderId} (h : Dropped t t' d)
    (hno : ∀ r, ¬ t.Carried r d) : Same t t' := by
  intro rider order
  refine ⟨(h rider order).1, ?_⟩
  rw [(h rider order).2]
  refine ⟨fun hc => hc.1, fun hc => ⟨hc, ?_⟩⟩
  rintro rfl
  exact hno rider hc

section Writes

variable {t t' : Tables} {r : RiderId} {d : OrderId} {offer : OfferId} {cap : ℕ}
  {expected : DeliveryState}

theorem Same.refl (t : Tables) : Same t t := fun _ _ => ⟨.rfl, .rfl⟩

/-- A write on a rider that leaves the set alone. -/
theorem same_onRider {write : RiderState → Option RiderState}
    (h : ∀ s s', write s = some s' → s'.activeDeliveries = s.activeDeliveries) :
    Same t (t.onRider r write).1 := by
  rcases t.onRider_cases r write with ⟨s, hs, he⟩ | ⟨-, he⟩
  · rw [he]
    intro rider order
    refine ⟨?_, .rfl⟩
    rw [Tables.active_setRider]
    split
    · next hr => subst hr; rw [h _ _ hs]; rfl
    · rfl
  · rw [he]
    exact .refl t

theorem same_reserve : Same t (t.reserve cap r offer d).1 :=
  same_onRider fun _ _ h => (RiderState.reserve_eq h).2.2

theorem same_releaseOffer : Same t (t.releaseOffer r offer).1 :=
  same_onRider fun _ _ h => (RiderState.releaseOffer_eq h).2.2

/-- After `finish_delivery` the order is out of the set, whatever it answered. -/
theorem freed_finishDelivery : Freed t (t.finishDelivery r d).1 r d := by
  intro rider order
  rcases t.onRider_cases r (fun s => s.finishDelivery d) with ⟨s, hs, h⟩ | ⟨hs, h⟩
  · rw [Tables.finishDelivery, h]
    refine ⟨?_, .rfl⟩
    rw [Tables.active_setRider]
    by_cases hr : rider = r
    · subst hr
      rw [if_pos rfl, (RiderState.finishDelivery_eq hs).2.2, Finset.mem_erase]
      simp [Tables.Active, and_comm, eq_comm]
    · simp [hr, Ne.symm hr]
  · rw [Tables.finishDelivery, h]
    have hd : ¬ t.Active r d := RiderState.finishDelivery_eq_none hs
    refine ⟨⟨fun ha => ⟨ha, ?_⟩, fun ha => ha.1⟩, .rfl⟩
    rintro ⟨rfl, rfl⟩
    exact hd ha

/-- A conversion puts the caller's order into the set. -/
theorem accept_converts (h : t.accept r offer d = (t', true)) (rider : RiderId)
    (order : OrderId) :
    (t'.Active rider order ↔ t.Active rider order ∨ (r = rider ∧ d = order)) ∧
      (t'.Carried rider order ↔ t.Carried rider order) := by
  rcases t.onRider_cases r (fun s => s.accept offer d) with ⟨s, hs, he⟩ | ⟨-, he⟩
  · obtain rfl : t.setRider r s = t' := congrArg Prod.fst (he.symm.trans h)
    refine ⟨?_, .rfl⟩
    rw [Tables.active_setRider]
    by_cases hr : rider = r
    · subst hr
      rw [if_pos rfl, (RiderState.accept_eq hs).2.2, Finset.mem_insert]
      simp [Tables.Active, or_comm, eq_comm]
    · simp [hr, Ne.symm hr]
  · exact absurd (congrArg Prod.snd (he.symm.trans h)) (by simp)

/-- A write that is refused writes nothing. -/
theorem onRider_refused {write : RiderState → Option RiderState}
    (h : t.onRider r write = (t', false)) : t' = t := by
  rcases t.onRider_cases r write with ⟨s, -, he⟩ | ⟨-, he⟩
  · exact absurd (congrArg Prod.snd (he.symm.trans h)) (by simp)
  · exact (congrArg Prod.fst (he.symm.trans h)).symm

theorem onDelivery_refused {write : Option DeliveryRow → Option DeliveryRow}
    (h : t.onDelivery d write = (t', false)) : t' = t := by
  rcases t.onDelivery_cases d write with ⟨row, -, he⟩ | ⟨-, he⟩
  · exact absurd (congrArg Prod.snd (he.symm.trans h)) (by simp)
  · exact (congrArg Prod.fst (he.symm.trans h)).symm

theorem onDelivery_applied {write : Option DeliveryRow → Option DeliveryRow}
    (h : t.onDelivery d write = (t', true)) :
    ∃ row, write (t.deliveries d) = some row ∧ t' = t.setDelivery d row := by
  rcases t.onDelivery_cases d write with ⟨row, hrow, he⟩ | ⟨-, he⟩
  · exact ⟨row, hrow, (congrArg Prod.fst (he.symm.trans h)).symm⟩
  · exact absurd (congrArg Prod.snd (he.symm.trans h)) (by simp)

/-- A write on a delivery that does not change its carrier. -/
theorem same_onDelivery {write : Option DeliveryRow → Option DeliveryRow}
    (h : ∀ row, write (t.deliveries d) = some row →
      ∀ rider, row.carriedBy rider ↔ t.Carried rider d) :
    Same t (t.onDelivery d write).1 := by
  rcases t.onDelivery_cases d write with ⟨row, hrow, he⟩ | ⟨-, he⟩
  · rw [he]
    intro rider order
    refine ⟨.rfl, ?_⟩
    rw [Tables.carried_setDelivery]
    split
    · next hd => subst hd; exact h row hrow rider
    · rfl
  · rw [he]
    exact .refl t

theorem same_of_refused {write : Option DeliveryRow → Option DeliveryRow}
    (h : (t.onDelivery d write).2 = false) : Same t (t.onDelivery d write).1 := by
  have he : (t.onDelivery d write).1 = t := onDelivery_refused (Prod.ext rfl h)
  rw [he]
  exact fun _ _ => ⟨.rfl, .rfl⟩

theorem same_putOffering : Same t (t.putOffering d r offer).1 := by
  refine same_onDelivery fun row hrow rider => ?_
  obtain ⟨rfl, hq⟩ := DeliveryStore.putOffering_eq hrow
  cases hd : t.deliveries d with
  | none => simp [Tables.Carried, hd, DeliveryRow.carriedBy]
  | some q => simp [Tables.Carried, hd, DeliveryRow.carriedBy, hq q hd]

theorem same_markPickedUp : Same t (t.markPickedUp d r).1 := by
  refine same_onDelivery fun row hrow rider => ?_
  obtain ⟨q, hq, hs, -, rfl⟩ := DeliveryStore.markPickedUp_eq hrow
  rw [Tables.carried_iff hq]
  simp [DeliveryRow.carriedBy, hs]

/-- A write that leaves the order with nobody. -/
theorem dropped_setDelivery {row : DeliveryRow} (h : ∀ rider, ¬ row.carriedBy rider) :
    Dropped t (t.setDelivery d row) d := by
  intro rider order
  refine ⟨.rfl, ?_⟩
  rw [Tables.carried_setDelivery]
  by_cases hd : order = d
  · simp [hd, h]
  · simp [hd, Ne.symm hd]

/-- A revoke that applies takes the order from its carrier. -/
theorem unassign_applied (h : t.unassign d r = (t', true)) :
    t.Carried r d ∧ Dropped t t' d := by
  obtain ⟨row, hrow, rfl⟩ := onDelivery_applied h
  obtain ⟨q, hq, hs, hr, rfl⟩ := DeliveryStore.unassign_eq hrow
  exact ⟨⟨q, hq, .inl hs, hr⟩, dropped_setDelivery (by simp [DeliveryRow.carriedBy])⟩

/-- A hand-over that applies takes the order from its carrier. -/
theorem markDelivered_applied (h : t.markDelivered d r = (t', true)) :
    t.Carried r d ∧ Dropped t t' d := by
  obtain ⟨row, hrow, rfl⟩ := onDelivery_applied h
  obtain ⟨q, hq, hs, hr, rfl⟩ := DeliveryStore.markDelivered_eq hrow
  exact ⟨⟨q, hq, .inr hs, hr⟩, dropped_setDelivery (by simp [DeliveryRow.carriedBy])⟩

/-- A cancel that applies found the row in the state it expected. -/
theorem cancelFrom_applied (h : t.cancelFrom d expected = (t', true)) :
    (∃ q, t.deliveries d = some q ∧ q.state = expected) ∧ Dropped t t' d := by
  obtain ⟨row, hrow, rfl⟩ := onDelivery_applied h
  obtain ⟨q, hq, hs, rfl⟩ := DeliveryStore.cancelFrom_eq hrow
  exact ⟨⟨q, hq, hs⟩, dropped_setDelivery (by simp [DeliveryRow.carriedBy])⟩

/-- `assign` makes the row's rider the carrier if the row is OFFERING under the offer. -/
theorem assign_applied {row : DeliveryRow} (hrow : t.deliveries d = some row)
    (h : row.state = .offering ∧ row.offerId = offer) (rider : RiderId) (order : OrderId) :
    ((t.assign d offer).1.Active rider order ↔ t.Active rider order) ∧
      ((t.assign d offer).1.Carried rider order ↔
        t.Carried rider order ∨ (row.riderId = rider ∧ d = order)) := by
  have hw : DeliveryStore.assign (t.deliveries d) offer =
      some { row with state := .assigned } := by
    simp [DeliveryStore.assign, DeliveryStore.transition, hrow, h]
  rw [Tables.assign, Tables.onDelivery, hw]
  refine ⟨.rfl, ?_⟩
  rw [Tables.carried_setDelivery]
  by_cases hd : order = d
  · subst hd
    rw [Tables.carried_iff hrow]
    simp [DeliveryRow.carriedBy, h.1]
  · simp [hd, Ne.symm hd]

theorem assign_refused {row : DeliveryRow} (hrow : t.deliveries d = some row)
    (h : ¬ (row.state = .offering ∧ row.offerId = offer)) : (t.assign d offer).1 = t := by
  have hw : DeliveryStore.assign (t.deliveries d) offer = none := by
    simp only [DeliveryStore.assign, DeliveryStore.transition, hrow]
    rw [if_neg]
    rintro ⟨hs, ho, -⟩
    exact h ⟨hs, ho offer rfl⟩
  rw [Tables.assign, Tables.onDelivery, hw]

/-- `assign` never renames a row's rider. -/
theorem names_assign {rider : RiderId} (h : t.Names rider d) :
    (t.assign d offer).1.Names rider d := by
  obtain ⟨row, hrow, hr⟩ := h
  by_cases hs : row.state = .offering ∧ row.offerId = offer
  · have hw : DeliveryStore.assign (t.deliveries d) offer =
        some { row with state := .assigned } := by
      simp [DeliveryStore.assign, DeliveryStore.transition, hrow, hs]
    rw [Tables.assign, Tables.onDelivery, hw]
    exact ⟨_, Function.update_self .., hr⟩
  · rw [assign_refused hrow hs]
    exact ⟨row, hrow, hr⟩

/-- A replayed hand-over is about an order that nobody carries. -/
theorem not_carried_of_replay (h : isReplay (t.deliveries d) r [.delivered] = true)
    (rider : RiderId) : ¬ t.Carried rider d := by
  rintro ⟨row, hrow, hs, -⟩
  rw [isReplay, hrow] at h
  simp at h
  rcases hs with hs | hs <;> rw [hs] at h <;> exact absurd h.2 (by decide)

end Writes

/-! ### Operations that settle a difference -/

/-- The operation will take the order out of the rider's set. -/
def Op.Clears (rider : RiderId) (order : OrderId) : Op → Prop
  | .finishUnassigned d r => r = rider ∧ d = order
  | .releaseCancelled d seen => seen.riderId = rider ∧ d = order
  | .finishCancelled d seen => seen.riderId = rider ∧ d = order
  | .finishDelivered r d => r = rider ∧ d = order
  | _ => False

/-- The operation has put the order into the rider's set and moves the row next. -/
def Op.Assigns (rider : RiderId) (order : OrderId) : Op → Prop
  | .assign r _ d => r = rider ∧ d = order
  | _ => False

instance (rider : RiderId) (order : OrderId) (op : Op) : Decidable (op.Clears rider order) := by
  cases op <;> unfold Op.Clears <;> infer_instance

/-- A clean-up of the order is pending for the rider. -/
def Clearing (s : System) (rider : RiderId) (order : OrderId) : Prop :=
  ∃ op ∈ s.ops, op.Clears rider order

instance (s : System) (rider : RiderId) (order : OrderId) :
    Decidable (Clearing s rider order) :=
  inferInstanceAs (Decidable (∃ op ∈ s.ops, op.Clears rider order))

def Assigning (s : System) (rider : RiderId) (order : OrderId) : Prop :=
  ∃ op ∈ s.ops, op.Assigns rider order

/-- The second write of an accept comes in time: the row still names the rider; if it
is the offer's OFFERING row, the order is in the rider's set to stay, and otherwise
the rider already carries the order or is not going to keep it. -/
def AssignInTime (t : Tables) (clearing : Prop) (rider : RiderId) (offer : OfferId)
    (order : OrderId) : Prop :=
  ∃ row ∈ t.deliveries order, row.riderId = rider ∧
    if row.state = .offering ∧ row.offerId = offer then t.Active rider order ∧ ¬ clearing
    else t.Active rider order → row.carriedBy rider ∨ clearing

/-- A cancel of an assigned order read the rider it was assigned to. -/
def CancelInTime (t : Tables) (order : OrderId) (seen : Option DeliveryRow) : Prop :=
  ∀ row ∈ t.deliveries order, row.state = .assigned →
    ∃ r ∈ seen, r.riderId = row.riderId

/-- No write of the operation comes too late. -/
def InTime (t : Tables) (clearing : RiderId → OrderId → Prop) : Op → Prop
  | .assign rider offer order => AssignInTime t (clearing rider order) rider offer order
  | .cancelAssigned order seen => CancelInTime t order seen
  | _ => True

/-- The steps in which no write comes too late. -/
def Sound (s : System) : Event → Prop
  | .run pid _ => ∀ op ∈ s.ops[pid]?, InTime s.tables (Clearing s) op
  | _ => True

section

variable (t : Tables) (clearing : RiderId → OrderId → Prop)

instance (rider : RiderId) (order : OrderId) : Decidable (t.Active rider order) :=
  inferInstanceAs (Decidable (order ∈ (t.riders rider).activeDeliveries))

instance [∀ r d, Decidable (clearing r d)] (op : Op) : Decidable (InTime t clearing op) := by
  cases op <;> unfold InTime <;>
    first | infer_instance | (unfold AssignInTime; infer_instance) |
      (unfold CancelInTime; infer_instance)

instance (s : System) (e : Event) : Decidable (Sound s e) := by
  cases e <;> unfold Sound <;> infer_instance

end

/-! ### The invariant -/

/-- `active` and `carried` agree, up to a pending clean-up or a pending assignment. -/
def Held (active carried clearing assigning : Prop) : Prop :=
  (carried → active ∧ ¬ clearing) ∧ (active → carried ∨ clearing ∨ assigning)

def AllHeld (s : System) : Prop :=
  ∀ rider order, Held (s.tables.Active rider order) (s.tables.Carried rider order)
    (Clearing s rider order) (Assigning s rider order)

theorem Held.congr {a c k p a' c' k' p' : Prop} (h : Held a c k p) (ha : a' ↔ a) (hc : c' ↔ c)
    (hk : k' ↔ k) (hp : p' ↔ p) : Held a' c' k' p' := by
  rw [ha, hc, hk, hp]
  exact h

theorem Held.same {t t' : Tables} {r : RiderId} {d : OrderId} {clearing assigning : Prop}
    (hs : Same t t') (h : Held (t.Active r d) (t.Carried r d) clearing assigning) :
    Held (t'.Active r d) (t'.Carried r d) clearing assigning := by
  rw [(hs r d).1, (hs r d).2]
  exact h

/-- A clean-up that has been done. -/
theorem Held.freed {t t' : Tables} {r rider : RiderId} {d order : OrderId} {ko p : Prop}
    (hf : Freed t t' rider order)
    (h : Held (t.Active r d) (t.Carried r d) ((rider = r ∧ order = d) ∨ ko) (False ∨ p)) :
    Held (t'.Active r d) (t'.Carried r d) (False ∨ ko) (False ∨ p) := by
  unfold Held at h ⊢
  rw [(hf r d).1, (hf r d).2]
  tauto

/-- A write that takes the order from its carrier and promises the clean-up. -/
theorem Held.dropped {t t' : Tables} {r rider : RiderId} {d order : OrderId} {ko p : Prop}
    (hd : Dropped t t' order)
    (hc : ∀ r, t.Carried r order → r = rider)
    (h : Held (t.Active r d) (t.Carried r d) (False ∨ ko) (False ∨ p)) :
    Held (t'.Active r d) (t'.Carried r d) ((rider = r ∧ order = d) ∨ ko) (False ∨ p) := by
  have hc : order = d → t.Carried r d → rider = r := by
    rintro rfl hr
    exact (hc r hr).symm
  unfold Held at h ⊢
  rw [(hd r d).1, (hd r d).2]
  tauto

section

variable {a c k p x : Prop}

/-- A conversion, with the assignment to come. -/
theorem Held.converted (h : Held a c k (False ∨ p)) : Held (a ∨ x) c k (x ∨ p) := by
  unfold Held at *
  tauto

/-- The assignment that was to come, if nothing clears the order. -/
theorem Held.assigned (h : Held a c k (x ∨ p)) (hx : x → a ∧ ¬ k) :
    Held a (c ∨ x) k (False ∨ p) := by
  unfold Held at *
  tauto

/-- An assignment that is not needed any more. -/
theorem Held.waived (h : Held a c k (x ∨ p)) (hx : x → a → c ∨ k) :
    Held a c k (False ∨ p) := by
  unfold Held at *
  tauto

/-- A clean-up of an order that nobody carries. -/
theorem Held.promised (h : Held a c (False ∨ k) p) (hx : x → ¬ c) : Held a c (x ∨ k) p := by
  unfold Held at *
  tauto

end

/-- The carrier of an order is the rider its row names. -/
theorem Tables.Carried.unique {t : Tables} {r r' : RiderId} {d : OrderId}
    (h : t.Carried r d) (h' : t.Carried r' d) : r = r' := by
  obtain ⟨row, hrow, -, rfl⟩ := h
  obtain ⟨row', hrow', -, rfl⟩ := h'
  rw [hrow] at hrow'
  cases hrow'
  rfl

/-- **One store call.**  `others` and `pending` are the clean-ups and the assignments
of the other operations. -/
theorem opStep_held {cap : ℕ} {fresh : OfferId} {t t' : Tables} {op op' : Op}
    (others pending : RiderId → OrderId → Prop)
    (h : opStep cap fresh t op = some (t', op'))
    (hok : InTime t (fun r d => op.Clears r d ∨ others r d) op)
    (hH : ∀ r d, Held (t.Active r d) (t.Carried r d) (op.Clears r d ∨ others r d)
      (op.Assigns r d ∨ pending r d)) (r : RiderId) (d : OrderId) :
    Held (t'.Active r d) (t'.Carried r d) (op'.Clears r d ∨ others r d)
      (op'.Assigns r d ∨ pending r d) := by
  have hrd := hH r d
  cases does h with
  | reserves | passesOver => exact hrd.same same_reserve
  | puts => exact hrd.same same_putOffering
  | releases | findsNoLock | releasesCancelled => exact hrd.same same_releaseOffer
  | unassigns hw =>
    obtain ⟨hc, hd⟩ := unassign_applied (Prod.ext rfl hw)
    exact hrd.dropped hd fun r hr => hr.unique hc
  | marksDelivered hw =>
    obtain ⟨hc, hd⟩ := markDelivered_applied (Prod.ext rfl hw)
    exact hrd.dropped hd fun r hr => hr.unique hc
  | findsPickedUp hw | findsNoOffering hw | keeps hw | findsNotPickedUp hw =>
    exact hrd.same (same_of_refused hw)
  | finishesUnassigned | finishesCancelled | finishesDelivered =>
    exact hrd.freed freed_finishDelivery
  | @cancelsUnseen order hw | @cancelsOffering order seen hw =>
    obtain ⟨⟨q, hq, hs⟩, hd⟩ := cancelFrom_applied (Prod.ext rfl hw)
    have hno : ∀ r, ¬ t.Carried r order := fun r hr => by
      rw [Tables.carried_iff hq] at hr
      simp [DeliveryRow.carriedBy, hs] at hr
    first
      | exact hrd.same (hd.same hno)
      | exact hrd.dropped hd fun r hr => absurd hr (hno r)
  | cancelsUnseenAssigned hw =>
    obtain ⟨⟨q, hq, hs⟩, -⟩ := cancelFrom_applied (Prod.ext rfl hw)
    obtain ⟨row, hseen, -⟩ := hok q hq hs
    cases hseen
  | cancelsAssigned hw =>
    obtain ⟨⟨q, hq, hs⟩, hd⟩ := cancelFrom_applied (Prod.ext rfl hw)
    obtain ⟨row, hseen, hrow⟩ := hok q hq hs
    cases hseen
    refine hrd.dropped hd fun r hr => ?_
    rw [Tables.carried_iff hq] at hr
    exact hr.2.symm.trans hrow.symm
  | accepts hw =>
    have hc := accept_converts (Prod.ext rfl hw) r d
    rw [hc.1, hc.2]
    exact hrd.converted
  | @comesTooLate rider offer order hw =>
    rw [show (t.accept rider offer order).1 = t from onRider_refused (Prod.ext rfl hw)]
    exact hrd
  | @assigns rider offer order =>
    obtain ⟨row, hrow, rfl, hc⟩ := hok
    by_cases hs : row.state = .offering ∧ row.offerId = offer
    · rw [if_pos hs] at hc
      have ha := assign_applied hrow hs r d
      rw [ha.1, ha.2]
      refine hrd.assigned ?_
      rintro ⟨rfl, rfl⟩
      exact hc
    · rw [if_neg hs] at hc
      rw [assign_refused hrow hs]
      refine hrd.waived ?_
      rintro ⟨rfl, rfl⟩
      rwa [Tables.carried_iff hrow]
  | marksPickedUp | findsNotAssigned => exact hrd.same same_markPickedUp
  | replaysDelivered hw =>
    refine hrd.promised ?_
    rintro ⟨-, rfl⟩
    exact not_carried_of_replay hw r
  | _ => exact hrd

/-! ### Whole runs -/

/-- Some operation has the property: the one that has just moved, or another one. -/
theorem exists_op_set {ops : List Op} {pid : ℕ} {op op' : Op} {P : Op → Prop}
    (h : ops[pid]? = some op) :
    (∃ o ∈ ops.set pid op', P o) ↔ P op' ∨ ∃ q, q ≠ pid ∧ ∃ o ∈ ops[q]?, P o := by
  have hlt : pid < ops.length := (List.getElem?_eq_some_iff.mp h).1
  simp only [List.mem_iff_getElem?, List.getElem?_set, hlt, if_true]
  constructor
  · rintro ⟨o, ⟨q, hq⟩, ho⟩
    split at hq
    · cases hq
      exact .inl ho
    · next hne => exact .inr ⟨q, Ne.symm hne, o, hq, ho⟩
  · rintro (ho | ⟨q, hne, o, hq, ho⟩)
    · exact ⟨op', ⟨pid, by simp⟩, ho⟩
    · exact ⟨o, ⟨q, by rw [if_neg hne.symm]; exact hq⟩, ho⟩

theorem exists_op_of_getElem? {ops : List Op} {pid : ℕ} {op : Op} {P : Op → Prop}
    (h : ops[pid]? = some op) :
    (∃ o ∈ ops, P o) ↔ P op ∨ ∃ q, q ≠ pid ∧ ∃ o ∈ ops[q]?, P o := by
  obtain ⟨hlt, rfl⟩ := List.getElem?_eq_some_iff.mp h
  rw [← exists_op_set h, List.set_getElem_self]

/-- An operation that has only begun promises nothing. -/
theorem Call.begin_promises (call : Call) (rider : RiderId) (order : OrderId) :
    ¬ call.begin.Clears rider order ∧ ¬ call.begin.Assigns rider order := by
  cases call <;> simp [Call.begin, Op.Clears, Op.Assigns]

theorem step_held {cap : ℕ} {s u : System} {e : Event} (hs : AllHeld s) (hok : Sound s e)
    (h : step cap s e = some u) : AllHeld u := by
  rcases step_cases h with ⟨call, rfl, rfl⟩ |
    ⟨pid, fresh, op, t, op', rfl, hop, -, hstep, rfl⟩ | ⟨rider, p, -, rfl⟩
  · intro r d
    obtain ⟨hc, ha⟩ := call.begin_promises r d
    refine (hs r d).congr .rfl .rfl ?_ ?_
    · simp [Clearing, or_and_right, exists_or, hc]
    · simp [Assigning, or_and_right, exists_or, ha]
  · have hin := hok op hop
    have hothers : Clearing s = fun r d => op.Clears r d ∨
        ∃ q, q ≠ pid ∧ ∃ o ∈ s.ops[q]?, o.Clears r d :=
      funext fun r => funext fun d => propext (exists_op_of_getElem? hop)
    rw [hothers] at hin
    have key := opStep_held _ (fun r d => ∃ q, q ≠ pid ∧ ∃ o ∈ s.ops[q]?, o.Assigns r d)
      hstep hin fun r d => (hs r d).congr .rfl .rfl
        (exists_op_of_getElem? hop).symm (exists_op_of_getElem? hop).symm
    exact fun r d => (key r d).congr .rfl .rfl (exists_op_set hop) (exists_op_set hop)
  · intro r d
    refine (hs r d).congr ?_ .rfl .rfl .rfl
    rw [Tables.active_setRider]
    split
    · next hr => subst hr; rfl
    · rfl

/-- The tables agree: an order is in a rider's set iff its row is ASSIGNED or PICKED_UP
under that rider. -/
def Agree (t : Tables) : Prop :=
  ∀ rider order, t.Active rider order ↔ t.Carried rider order

theorem AllHeld.agree {s : System} (h : AllHeld s) (hq : Quiet s) : Agree s.tables := by
  have hno : ∀ P : Op → Prop, (∀ o, ¬ P (.answered o)) → ¬ ∃ op ∈ s.ops, P op := by
    rintro P hP ⟨op, hop, hp⟩
    have ha := hq op hop
    cases op with
    | answered o => exact hP o hp
    | _ => cases ha
  intro r d
  obtain ⟨hc, ha⟩ := h r d
  refine ⟨fun h => ?_, fun h => (hc h).1⟩
  rcases ha h with h | h | h
  · exact h
  · exact absurd h (hno _ fun _ => id)
  · exact absurd h (hno _ fun _ => id)

/-- In tables that agree no order is in the sets of two riders. -/
theorem Agree.unique {t : Tables} (h : Agree t) {r r' : RiderId} {d : OrderId}
    (hr : t.Active r d) (hr' : t.Active r' d) : r = r' :=
  ((h r d).mp hr).unique ((h r' d).mp hr')

/-- The rider and the order of an accept in progress. -/
def Op.accepting : Op → Option (RiderId × OrderId)
  | .accept rider _ order => some (rider, order)
  | .readAccepted rider _ order => some (rider, order)
  | .assign rider _ order => some (rider, order)
  | _ => none

/-- An accept that answers `assigned` in time leaves a row that names its rider. -/
theorem opStep_assigned {cap : ℕ} {fresh : OfferId} {t t' : Tables} {op : Op}
    {clearing : RiderId → OrderId → Prop} {rider : RiderId} {order : OrderId}
    (h : opStep cap fresh t op = some (t', .answered .assigned)) (hok : InTime t clearing op)
    (hacc : op.accepting = some (rider, order)) : t'.Names rider order := by
  cases op with
  | readAccepted r offer d =>
    cases hacc
    simp only [opStep, Option.some.injEq, Prod.mk.injEq, Op.answered.injEq] at h
    obtain ⟨rfl, h⟩ := h
    split at h
    · next hb =>
      obtain ⟨row, hrow, hr⟩ := Option.any_eq_true _ _ |>.mp hb
      simp only [Bool.and_eq_true, beq_iff_eq] at hr
      exact ⟨row, hrow, hr.1.1⟩
    · cases h
  | assign r offer d =>
    cases hacc
    obtain ⟨row, hrow, hr, -⟩ := hok
    cases h
    exact names_assign ⟨row, hrow, hr⟩
  | accept r offer d => cases does h
  | _ => cases hacc

/-- An order is offered, accepted and assigned. -/
def oneAssignment : List Event :=
  [.online "r1", .start (.findAndOffer "d" ["r1"]), .run 0 "o1", .run 0 "",
   .start (.acceptOffer "r1" "o1" "d"), .run 1 "", .run 1 ""]

end Dispatch
