/-
What a delivery workflow knows about the locks of its order.

* `OfferOk` — what each await of the workflow knows: nobody is locked, or one rider is,
  under the OFFERING row of the offer it is about, or a cancel is freeing the order;
* `OrderOk` — the invariant of one order: that, and whose operations are under way;
* `Undisturbed` — what a step of dispatch leaves alone unless it is the order's own;
* `OrderOk.call` — a store call keeps the invariant of every order whose offers it does
  not take out of sight.
-/
import SmartFoodOps.Order.Cascade

open Machine Durable Dispatch

namespace Order

namespace Cascade

open Delivery

/-! ### What is known about the locks of an order -/

section

variable (s : Dispatch.System) (d : OrderId)

def NoLock : Prop := ∀ rider offer, ¬ s.tables.Locked rider offer d

/-- Only the offer's rider may be locked, and then the row says so. -/
def Live (rider : RiderId) (offer : OfferId) : Prop :=
  ∀ r o, s.tables.Locked r o d →
    r = rider ∧ o = offer ∧ s.tables.deliveries d = some ⟨.offering, rider, offer⟩

/-- A cancel of the order is about to release the lock. -/
def Pending (rider : RiderId) (offer : OfferId) : Prop :=
  ∃ seen, .releaseCancelled d seen ∈ s.ops ∧ seen.riderId = rider ∧ seen.offerId = offer

/-- Every lock has its row or is about to be released. -/
def Freeable : Prop :=
  ∀ r o, s.tables.Locked r o d →
    s.tables.deliveries d = some ⟨.offering, r, o⟩ ∨ Pending s d r o

def Cleared : Prop := ∀ r o, s.tables.Locked r o d → Pending s d r o

/-- The order is not going to be assigned unless it is now. -/
def Engaged : Prop :=
  ∀ q, s.tables.deliveries d = some q → q.state = .offering → Converted s q.offerId

/-- Nor is it assigned now. -/
def Final : Prop :=
  Engaged s d ∧ ∀ q, s.tables.deliveries d = some q → q.state ≠ .assigned

/-- The row that a cancel has read names the rider it has to release. -/
def SeenRow (seen : Option DeliveryRow) : Prop :=
  ∀ r o, s.tables.Locked r o d → s.tables.deliveries d = some ⟨.offering, r, o⟩ →
    ∃ q ∈ seen, q.riderId = r ∧ q.offerId = o

/-- What a cancel of the order knows in the midst of it. -/
def CancelFact : Op → Prop
  | .cancelOffering e seen => e = d → SeenRow s d seen
  | .cancelAssigned e _ => e = d → Cleared s d ∧ Engaged s d
  | .releaseCancelled e _ => e = d → Cleared s d ∧ Final s d
  | .finishCancelled e _ => e = d → Cleared s d ∧ Final s d
  | _ => True

/-! ### What the executions of the activities know -/

def FindOk : Op → Prop
  | .reserve e _ => e = d ∧ NoLock s d
  | .putOffering e rider offer => e = d ∧ ∀ r o, s.tables.Locked r o d → r = rider ∧ o = offer
  | .answered (.offered offer rider) => Live s d rider offer
  | .answered _ => NoLock s d
  | _ => False

def ExpireOk (offer : OfferId) (rider : RiderId) : Op → Prop
  | .releaseExpired _ o r => o = offer ∧ r = rider ∧ Live s d rider offer
  | .readExpired _ => NoLock s d
  | .answered _ => NoLock s d
  | _ => False

def CancelOk : Op → Prop
  | .readCancelled e => e = d ∧ Freeable s d
  | .cancelOffering e _ => e = d ∧ Freeable s d
  | .cancelAssigned e _ => e = d ∧ Cleared s d
  | .releaseCancelled e _ => e = d ∧ Cleared s d
  | .finishCancelled e _ => e = d ∧ Cleared s d
  | .answered _ => Cleared s d ∧ Final s d
  | _ => False

end

/-- What each await of the workflow knows. -/
def OfferOk (s : Dispatch.System) (d : OrderId) (pc : Pc) (t : Attempt CallPhase Answer) : Prop :=
  match pc, t with
  | .findAndOffer, .working .send => NoLock s d
  | .findAndOffer, .working (.waiting pid) => ∃ op, s.ops[pid]? = some op ∧ FindOk s d op
  | .findAndOffer, .answered (.outcome (.offered offer rider)) => Live s d rider offer
  | .findAndOffer, .answered _ => NoLock s d
  | .findAndOffer, .refused => False
  | .awaitAccept offer rider, _ => Live s d rider offer
  | .expireOffer offer rider, .working .send => Live s d rider offer
  | .expireOffer offer rider, .working (.waiting pid) =>
    ∃ op, s.ops[pid]? = some op ∧ ExpireOk s d offer rider op
  | .expireOffer _ _, .answered _ => NoLock s d
  | .expireOffer _ _, .refused => False
  | .cancelDispatch, .working .send => Freeable s d
  | .cancelDispatch, .working (.waiting pid) => ∃ op, s.ops[pid]? = some op ∧ CancelOk s d op
  | .cancelDispatch, .answered _ => Cleared s d ∧ Final s d
  | .cancelDispatch, .refused => False
  | .cancelled, _ => Cleared s d ∧ Final s d
  | _, _ => NoLock s d

/-- A cancel of the order may be under way. -/
def cancelling : Pc → Bool
  | .cancelDispatch | .cancelled | .returned .noRider => true
  | _ => false

/-- The operation is a cancel of the order. -/
def Cancels (d : OrderId) : Op → Prop
  | .readCancelled e => e = d
  | .cancelOffering e _ => e = d
  | .cancelAssigned e _ => e = d
  | .releaseCancelled e _ => e = d
  | .finishCancelled e _ => e = d
  | _ => False

/-- **The invariant of one order.** -/
structure OrderOk (s : Dispatch.System) (d : OrderId) (i : Inst Pos CallPhase Answer) : Prop where
  offers : OfferOk s d i.pos.pc i.attempt
  /-- An offer is put for the workflow that waits for it. -/
  puts : ∀ (pid : ℕ) rider offer, s.ops[pid]? = some (.putOffering d rider offer) →
    i.pos.pc = .findAndOffer ∧ i.attempt = .working (.waiting pid)
  calm : cancelling i.pos.pc = false → ∀ op ∈ s.ops, ¬ Cancels d op
  fact : ∀ op ∈ s.ops, CancelFact s d op
  told : ∀ offer rider, i.pos.told.accepted offer = some rider → Spent s offer

section

variable {s : Dispatch.System} {d : OrderId}

theorem NoLock.live {rider : RiderId} {offer : OfferId} (h : NoLock s d) : Live s d rider offer :=
  fun r o hl => absurd hl (h r o)

theorem Live.freeable {rider : RiderId} {offer : OfferId} (h : Live s d rider offer) :
    Freeable s d := by
  intro r o hl
  obtain ⟨rfl, rfl, hrow⟩ := h r o hl
  exact .inl hrow

theorem NoLock.freeable (h : NoLock s d) : Freeable s d := fun r o hl => absurd hl (h r o)

theorem Cleared.freeable (h : Cleared s d) : Freeable s d := fun r o hl => .inr (h r o hl)

theorem cancelFact_of_not {o : Op} (h : ¬ Cancels d o) : CancelFact s d o := by
  cases o with
  | cancelOffering e seen => exact fun he => absurd he h
  | cancelAssigned e seen => exact fun he => absurd he h
  | releaseCancelled e seen => exact fun he => absurd he h
  | finishCancelled e seen => exact fun he => absurd he h
  | _ => trivial

/-- While a cancel may be under way every lock can be freed. -/
theorem OfferOk.freeable {pc : Pc} {t : Attempt CallPhase Answer} (h : OfferOk s d pc t)
    (hc : cancelling pc = true) : Freeable s d := by
  cases pc with
  | cancelDispatch =>
    cases t with
    | working phase =>
      cases phase with
      | send => exact h
      | waiting pid =>
        obtain ⟨op, -, hop⟩ := h
        cases op with
        | readCancelled => exact hop.2
        | cancelOffering => exact hop.2
        | cancelAssigned => exact hop.2.freeable
        | releaseCancelled => exact hop.2.freeable
        | finishCancelled => exact hop.2.freeable
        | answered => exact hop.1.freeable
        | _ => cases hop
    | answered answer => exact h.1.freeable
    | refused => cases h
  | cancelled => exact h.1.freeable
  | returned result => exact NoLock.freeable h
  | _ => cases hc

end

/-! ### Steps that do not disturb an order -/

/-- What a step of dispatch leaves alone; `calm` says that it does not cancel the order. -/
structure Undisturbed (s u : Dispatch.System) (d : OrderId) (calm : Prop) : Prop where
  kept : ∀ r o, u.tables.Locked r o d → s.tables.Locked r o d
  row : ∀ r o, u.tables.Locked r o d → s.tables.deliveries d = some ⟨.offering, r, o⟩ →
    u.tables.deliveries d = some ⟨.offering, r, o⟩ ∨ ¬ calm ∧ Pending u d r o
  back : ∀ r o, s.tables.Locked r o d → u.tables.deliveries d = some ⟨.offering, r, o⟩ →
    s.tables.deliveries d = some ⟨.offering, r, o⟩
  pending : ∀ r o, u.tables.Locked r o d → Pending s d r o → Pending u d r o
  engaged : Engaged s d → Engaged u d
  final : Final s d → Final u d

section

variable {s u : Dispatch.System} {d : OrderId} {calm : Prop}

theorem NoLock.mono (hu : Undisturbed s u d calm) (h : NoLock s d) : NoLock u d :=
  fun r o hl => h r o (hu.kept r o hl)

theorem Live.mono {rider : RiderId} {offer : OfferId} (hu : Undisturbed s u d calm) (hcalm : calm)
    (h : Live s d rider offer) : Live u d rider offer := by
  intro r o hl
  obtain ⟨rfl, rfl, hrow⟩ := h r o (hu.kept r o hl)
  exact ⟨rfl, rfl, (hu.row r o hl hrow).resolve_right fun hn => hn.1 hcalm⟩

theorem Freeable.mono (hu : Undisturbed s u d calm) (h : Freeable s d) : Freeable u d := by
  intro r o hl
  rcases h r o (hu.kept r o hl) with hrow | hp
  · exact (hu.row r o hl hrow).imp_right (·.2)
  · exact .inr (hu.pending r o hl hp)

theorem Cleared.mono (hu : Undisturbed s u d calm) (h : Cleared s d) : Cleared u d :=
  fun r o hl => hu.pending r o hl (h r o (hu.kept r o hl))

theorem SeenRow.mono {seen : Option DeliveryRow} (hu : Undisturbed s u d calm)
    (h : SeenRow s d seen) : SeenRow u d seen := by
  intro r o hl hrow
  have hls := hu.kept r o hl
  exact h r o hls (hu.back r o hls hrow)

theorem CancelFact.mono {o : Op} (hu : Undisturbed s u d calm) (h : CancelFact s d o) :
    CancelFact u d o := by
  cases o with
  | cancelOffering e seen => exact fun he => (h he).mono hu
  | cancelAssigned e seen => exact fun he => ⟨(h he).1.mono hu, hu.engaged (h he).2⟩
  | releaseCancelled e seen => exact fun he => ⟨(h he).1.mono hu, hu.final (h he).2⟩
  | finishCancelled e seen => exact fun he => ⟨(h he).1.mono hu, hu.final (h he).2⟩
  | _ => trivial

theorem FindOk.mono {o : Op} (hu : Undisturbed s u d calm) (hcalm : calm) (h : FindOk s d o) :
    FindOk u d o := by
  cases o with
  | reserve e candidates => exact ⟨h.1, h.2.mono hu⟩
  | putOffering e rider offer => exact ⟨h.1, fun r o hl => h.2 r o (hu.kept r o hl)⟩
  | answered outcome =>
    cases outcome with
    | offered offer rider => exact Live.mono hu hcalm h
    | _ => exact NoLock.mono hu h
  | _ => cases h

theorem ExpireOk.mono {o : Op} {rider : RiderId} {offer : OfferId} (hu : Undisturbed s u d calm)
    (hcalm : calm) (h : ExpireOk s d offer rider o) : ExpireOk u d offer rider o := by
  cases o with
  | releaseExpired e o r => exact ⟨h.1, h.2.1, h.2.2.mono hu hcalm⟩
  | readExpired e => exact NoLock.mono hu h
  | answered outcome => exact NoLock.mono hu h
  | _ => cases h

theorem CancelOk.mono {o : Op} (hu : Undisturbed s u d calm) (h : CancelOk s d o) :
    CancelOk u d o := by
  cases o with
  | readCancelled e => exact ⟨h.1, h.2.mono hu⟩
  | cancelOffering e seen => exact ⟨h.1, h.2.mono hu⟩
  | cancelAssigned e seen => exact ⟨h.1, h.2.mono hu⟩
  | releaseCancelled e seen => exact ⟨h.1, h.2.mono hu⟩
  | finishCancelled e seen => exact ⟨h.1, h.2.mono hu⟩
  | answered outcome => exact ⟨h.1.mono hu, hu.final h.2⟩
  | _ => cases h

/-- What an await knows is not disturbed, if the execution it waits for stays where it is. -/
theorem OfferOk.mono {pc : Pc} {t : Attempt CallPhase Answer} (hu : Undisturbed s u d calm)
    (hcalm : cancelling pc = false → calm)
    (hops : ∀ (pid : ℕ) op, t = .working (.waiting pid) → s.ops[pid]? = some op →
      u.ops[pid]? = some op) (h : OfferOk s d pc t) : OfferOk u d pc t := by
  cases pc with
  | findAndOffer =>
    cases t with
    | working phase =>
      cases phase with
      | send => exact NoLock.mono hu h
      | waiting pid =>
        obtain ⟨op, hop, hok⟩ := h
        exact ⟨op, hops pid op rfl hop, hok.mono hu (hcalm rfl)⟩
    | answered answer =>
      cases answer with
      | outcome o =>
        cases o with
        | offered offer rider => exact Live.mono hu (hcalm rfl) h
        | _ => exact NoLock.mono hu h
      | done => exact NoLock.mono hu h
    | refused => cases h
  | awaitAccept offer rider => exact Live.mono hu (hcalm rfl) h
  | expireOffer offer rider =>
    cases t with
    | working phase =>
      cases phase with
      | send => exact Live.mono hu (hcalm rfl) h
      | waiting pid =>
        obtain ⟨op, hop, hok⟩ := h
        exact ⟨op, hops pid op rfl hop, hok.mono hu (hcalm rfl)⟩
    | answered answer => exact NoLock.mono hu h
    | refused => cases h
  | cancelDispatch =>
    cases t with
    | working phase =>
      cases phase with
      | send => exact Freeable.mono hu h
      | waiting pid =>
        obtain ⟨op, hop, hok⟩ := h
        exact ⟨op, hops pid op rfl hop, hok.mono hu⟩
    | answered answer => exact ⟨h.1.mono hu, hu.final h.2⟩
    | refused => cases h
  | cancelled => exact ⟨h.1.mono hu, hu.final h.2⟩
  | _ => exact NoLock.mono hu h

end

/-! ### A store call -/

/-- The execution `pid` makes its next store call. -/
structure StoreCall (cap pid : ℕ) (fresh : OfferId) (s u : Dispatch.System) (op op' : Op) :
    Prop where
  step : Dispatch.step cap s (.run pid fresh) = some u
  at_pid : s.ops[pid]? = some op
  made : opStep cap fresh s.tables op = some (u.tables, op')
  ops : u.ops = s.ops.set pid op'

section

variable {cap pid : ℕ} {fresh : OfferId} {s u : Dispatch.System} {op op' : Op} {d : OrderId}

theorem storeCall_of_step (h : Dispatch.step cap s (.run pid fresh) = some u) :
    ∃ op op', StoreCall cap pid fresh s u op op' := by
  rcases Dispatch.step_cases h with ⟨_, he, -⟩ | ⟨pid', fresh', op, t, op', he, hop, -, hone, hu⟩ |
    ⟨_, _, he | he, -⟩
  · cases he
  · cases he
    exact ⟨op, op', h, hop, by rw [hu]; exact hone, by rw [hu]⟩
  · cases he
  · cases he

theorem StoreCall.mem (hc : StoreCall cap pid fresh s u op op') : op ∈ s.ops :=
  List.mem_of_getElem? hc.at_pid

theorem StoreCall.next (hc : StoreCall cap pid fresh s u op op') : u.ops[pid]? = some op' := by
  rw [hc.ops]
  exact List.getElem?_set_self (List.getElem?_eq_some_iff.mp hc.at_pid).1

theorem StoreCall.other (hc : StoreCall cap pid fresh s u op op') {i : ℕ} (hi : pid ≠ i) :
    u.ops[i]? = s.ops[i]? := by
  rw [hc.ops]
  exact List.getElem?_set_ne hi

theorem StoreCall.mem_cases (hc : StoreCall cap pid fresh s u op op') {o : Op} (ho : o ∈ u.ops) :
    o ∈ s.ops ∨ o = op' := by
  rw [hc.ops] at ho
  exact List.mem_or_eq_of_mem_set ho

theorem StoreCall.mem_next (hc : StoreCall cap pid fresh s u op op') : op' ∈ u.ops :=
  List.mem_of_getElem? hc.next

/-- An operation other than the one that makes the call stays where it is. -/
theorem StoreCall.mem_of_ne (hc : StoreCall cap pid fresh s u op op') {o : Op} (ho : o ∈ s.ops)
    (hne : o ≠ op) : o ∈ u.ops := by
  obtain ⟨i, hi⟩ := List.mem_iff_getElem?.mp ho
  have hpid : pid ≠ i := by
    rintro rfl
    exact hne (Option.some.inj (hi.symm.trans hc.at_pid))
  exact List.mem_of_getElem? ((hc.other hpid).trans hi)

/-- The call neither locks a rider for the order nor writes an offer on its row. -/
structure Aside (s u : Dispatch.System) (op : Op) (d : OrderId) : Prop where
  kept : ∀ r o, u.tables.Locked r o d → s.tables.Locked r o d
  put : ∀ r o, op ≠ .putOffering d r o

/-- What becomes of the OFFERING row of a lock. -/
theorem offering_row (hc : StoreCall cap pid fresh s u op op') (hm : Minted s) {r : RiderId}
    {o : OfferId} (hput : ∀ r o, op ≠ .putOffering d r o) (hl : s.tables.Locked r o d)
    (hrow : s.tables.deliveries d = some ⟨.offering, r, o⟩) :
    u.tables.deliveries d = some ⟨.offering, r, o⟩ ∨
      ∃ seen, op = .cancelOffering d seen ∧ op' = freeing d seen := by
  rcases opStep_row (d := d) hc.made with hsame | ⟨row, -, hmv⟩
  · exact .inl (hsame.trans hrow)
  · cases hmv with
    | put => exact absurd rfl (hput _ _)
    | assign hq hs ho =>
      cases hrow.symm.trans hq
      subst ho
      exact absurd hl ((hm.assigning hc.mem).2 _ _)
    | cancel => exact .inr ⟨_, rfl, rfl⟩
    | carried hq hs =>
      cases hrow.symm.trans hq
      rcases hs with ⟨hs, -⟩ | ⟨hs, -⟩ <;> cases hs

/-- The OFFERING row of a lock was there before, unless it has just been put. -/
theorem offering_row_back (hc : StoreCall cap pid fresh s u op op') (hm : Minted s) {r : RiderId}
    {o : OfferId} (hput : ∀ r o, op ≠ .putOffering d r o) (hl : s.tables.Locked r o d)
    (hrow : u.tables.deliveries d = some ⟨.offering, r, o⟩) :
    s.tables.deliveries d = some ⟨.offering, r, o⟩ := by
  rcases opStep_row (d := d) hc.made with hsame | ⟨row, hrow', hmv⟩
  · exact hsame.symm.trans hrow
  · cases hrow'.symm.trans hrow
    cases hmv with
    | put => exact absurd rfl (hput _ _)
    | carried hq hs =>
      -- an order that is taken away from its rider was converted
      have hcon := hm.taken hq (hs.imp (·.1) fun hs => .inl hs.1)
      exact absurd hl (hcon.1.2 _ _)

/-- A release that is pending stays so, or the lock is gone. -/
theorem Pending.call {rider : RiderId} {offer : OfferId}
    (hc : StoreCall cap pid fresh s u op op') (h : Pending s d rider offer)
    (hl : u.tables.Locked rider offer d) : Pending u d rider offer := by
  obtain ⟨seen, hmem, rfl, rfl⟩ := h
  refine ⟨seen, hc.mem_of_ne hmem ?_, rfl, rfl⟩
  rintro rfl
  have hmade := hc.made
  simp only [opStep, Option.some.injEq, Prod.mk.injEq] at hmade
  rw [← hmade.1] at hl
  exact not_locked_releaseOffer hl

theorem Engaged.call (hc : StoreCall cap pid fresh s u op op') (hm : Minted s)
    (hput : ∀ r o, op ≠ .putOffering d r o) (h : Engaged s d) : Engaged u d := by
  intro q hq hs
  have hconv : ∀ {offer}, Converted s offer → Converted u offer := fun hc' => hc'.step hc.step
  rcases opStep_row (d := d) hc.made with hsame | ⟨row, hrow, hmv⟩
  · exact hconv (h q (hsame.symm.trans hq) hs)
  · cases hrow.symm.trans hq
    cases hmv with
    | put => exact absurd rfl (hput _ _)
    | assign => cases hs
    | cancel => cases hs
    | carried hq' hst =>
      have hcon := hm.taken hq' (hst.imp (·.1) fun hst => .inl hst.1)
      exact hconv hcon

theorem Final.call (hc : StoreCall cap pid fresh s u op op') (hm : Minted s)
    (hput : ∀ r o, op ≠ .putOffering d r o) (h : Final s d) : Final u d := by
  refine ⟨h.1.call hc hm hput, fun q hq hs => ?_⟩
  rcases opStep_row (d := d) hc.made with hsame | ⟨row, hrow, hmv⟩
  · exact h.2 q (hsame.symm.trans hq) hs
  · cases hrow.symm.trans hq
    cases hmv with
    | put => exact absurd rfl (hput _ _)
    | assign hq' hs' ho =>
      subst ho
      exact (h.1 _ hq' hs').2 _ hc.mem _ d rfl
    | cancel => cases hs
    | carried hq' hst =>
      rcases hst with ⟨hst, -⟩ | ⟨-, hst⟩
      · exact h.2 _ hq' hst
      · subst hst
        cases hs


theorem Final.of_cancelled {q : DeliveryRow} (h : s.tables.deliveries d = some q)
    (hs : q.state = .cancelled) : Final s d := by
  constructor
  · intro q' hq' hs'
    cases h.symm.trans hq'
    rw [hs] at hs'
    cases hs'
  · intro q' hq' hs'
    cases h.symm.trans hq'
    rw [hs] at hs'
    cases hs'

/-- A store call that is aside does not disturb the order. -/
theorem undisturbed_call (hc : StoreCall cap pid fresh s u op op') (hm : Minted s)
    (ha : Aside s u op d) (hfact : CancelFact s d op) : Undisturbed s u d (¬ Cancels d op) where
  kept := ha.kept
  row r o hl hrow := by
    have hls := ha.kept r o hl
    rcases offering_row hc hm ha.put hls hrow with hrow' | ⟨seen, rfl, rfl⟩
    · exact .inl hrow'
    · obtain ⟨q, hq, rfl, rfl⟩ := hfact rfl _ _ hls hrow
      cases hq
      exact .inr ⟨fun hn => hn rfl, q, hc.mem_next, rfl, rfl⟩
  back r o hls hrow := offering_row_back hc hm ha.put hls hrow
  pending r o hl hp := hp.call hc hl
  engaged h := h.call hc hm ha.put
  final h := h.call hc hm ha.put

/-- A cancel is aside: it takes no lock and puts no offer. -/
theorem Aside.of_cancels (hc : StoreCall cap pid fresh s u op op') (h : Cancels d op) :
    Aside s u op d := by
  refine ⟨fun r o hl => ?_, fun r o he => by subst he; cases h⟩
  rcases opStep_locked hc.made hl with hold | ⟨⟨cs, rfl⟩, -, -⟩
  · exact hold
  · cases h

/-- **One store call of a cancel of the order**, when every lock can be freed. -/
theorem cancel_call (hc : StoreCall cap pid fresh s u op op') (hm : Minted s)
    (hcan : Cancels d op) (hfact : CancelFact s d op) (hfree : Freeable s d) :
    CancelFact u d op' ∧ CancelOk u d op' := by
  have hu := undisturbed_call hc hm (.of_cancels hc hcan) hfact
  have hfree' : Freeable u d := hfree.mono hu
  -- a row that is CANCELLED is no lock's OFFERING row
  have happlied : ∀ {expected}, u.tables = (s.tables.cancelFrom d expected).1 →
      (s.tables.cancelFrom d expected).2 = true → Cleared u d ∧ Final u d := by
    intro expected ht hw
    obtain ⟨row, hrow, he⟩ := onDelivery_applied (Prod.ext rfl hw)
    obtain ⟨q, -, -, rfl⟩ := DeliveryStore.cancelFrom_eq hrow
    have hq := congrArg (Tables.deliveries · d) (ht.trans he)
    replace hq := hq.trans (Function.update_self ..)
    refine ⟨fun r o hl => (hfree' r o hl).resolve_left fun hrow => ?_, .of_cancelled hq rfl⟩
    cases hq.symm.trans hrow
  have hrefused : ∀ {expected}, u.tables = (s.tables.cancelFrom d expected).1 →
      (s.tables.cancelFrom d expected).2 = false →
      ∀ q, u.tables.deliveries d = some q → q.state ≠ expected := by
    intro expected ht hw q hq
    rcases s.tables.onDelivery_cases d (DeliveryStore.cancelFrom · expected) with
      ⟨row, -, he⟩ | ⟨hn, he⟩
    · cases (congrArg Prod.snd he).symm.trans hw
    · rw [ht, show (s.tables.cancelFrom d expected).1 = s.tables from congrArg Prod.fst he] at hq
      exact DeliveryStore.cancelFrom_eq_none hq hn
  have hd := does hc.made
  generalize ht : u.tables = t at hd
  cases hd with
  | readsCancelled =>
    cases hcan
    exact ⟨fun _ r o _ hrow => ⟨_, ht ▸ hrow, rfl, rfl⟩, rfl, hfree'⟩
  | cancelsUnseen hw | cancelsUnseenAssigned hw =>
    cases hcan
    exact ⟨trivial, happlied ht hw⟩
  | cancelsOffering hw | cancelsAssigned hw =>
    cases hcan
    exact ⟨fun _ => happlied ht hw, rfl, (happlied ht hw).1⟩
  | findsNoOffering hw =>
    cases hcan
    have hs := hrefused ht hw
    have hcl : Cleared u d := fun r o hl => (hfree' r o hl).resolve_left fun hrow =>
      hs _ hrow rfl
    exact ⟨fun _ => ⟨hcl, fun q hq hst => absurd hst (hs q hq)⟩, rfl, hcl⟩
  | keeps hw =>
    cases hcan
    obtain ⟨hcl, heng⟩ := hfact rfl
    exact ⟨trivial, hcl.mono hu, hu.engaged heng, hrefused ht hw⟩
  | releasesCancelled =>
    cases hcan
    have hdone : Cleared u d ∧ Final u d := ⟨(hfact rfl).1.mono hu, hu.final (hfact rfl).2⟩
    exact ⟨fun _ => hdone, rfl, hdone.1⟩
  | finishesCancelled =>
    cases hcan
    exact ⟨trivial, (hfact rfl).1.mono hu, hu.final (hfact rfl).2⟩
  | _ => cases hcan

/-! ### The executions of the other activities -/

theorem putOffering_applies {row : Option DeliveryRow} {rider : RiderId} {offer : OfferId}
    (h : ∀ q ∈ row, q.state = .offering) :
    DeliveryStore.putOffering row rider offer = some ⟨.offering, rider, offer⟩ := by
  cases row with
  | none => rfl
  | some q => exact if_pos (h q rfl)

/-- A store call of the `find_and_offer` that the workflow waits for. -/
theorem FindOk.call (hc : StoreCall cap pid fresh s u op op') (h : FindOk s d op)
    (hput : ∀ r o, op = .putOffering d r o →
      ∀ q ∈ s.tables.deliveries d, q.state = .offering) : FindOk u d op' := by
  have hlocked : ∀ {cs}, op = .reserve d cs → NoLock s d →
      ∀ r o, u.tables.Locked r o d → op' = .putOffering d r o := by
    rintro cs rfl hno r o hl
    rcases opStep_locked hc.made hl with hold | ⟨-, -, hop'⟩
    · exact absurd hold (hno r o)
    · exact hop'
  have hd := does hc.made
  generalize ht : u.tables = t at hd
  cases hd with
  | unoffered | passesOver =>
    obtain ⟨rfl, hno⟩ := h
    have hno' : NoLock u _ := fun r o hl => nomatch hlocked rfl hno r o hl
    first | exact ⟨rfl, hno'⟩ | exact hno'
  | reserves =>
    obtain ⟨rfl, hno⟩ := h
    refine ⟨rfl, fun r o hl => ?_⟩
    cases hlocked rfl hno r o hl
    exact ⟨rfl, rfl⟩
  | puts =>
    obtain ⟨rfl, honly⟩ := h
    intro r o hl
    rw [ht] at hl ⊢
    obtain ⟨rfl, rfl⟩ := honly r o (locked_onDelivery.mp hl)
    refine ⟨rfl, rfl, ?_⟩
    rw [Tables.putOffering, Tables.onDelivery, putOffering_applies (hput r o rfl)]
    exact Function.update_self ..
  | _ => cases h

/-- A store call of the `expire_offer` that the workflow waits for. -/
theorem ExpireOk.call {rider : RiderId} {offer : OfferId}
    (hc : StoreCall cap pid fresh s u op op') (h : ExpireOk s d offer rider op) :
    ExpireOk u d offer rider op' := by
  have hd := does hc.made
  generalize ht : u.tables = t at hd
  cases hd with
  | releases | findsNoLock =>
    obtain ⟨rfl, rfl, hlive⟩ := h
    intro r' o' hl
    rcases opStep_locked hc.made hl with hold | ⟨⟨cs, hcs⟩, -, -⟩
    · obtain ⟨rfl, rfl, -⟩ := hlive r' o' hold
      rw [ht] at hl
      exact not_locked_releaseOffer hl
    · cases hcs
  | readsExpired =>
    intro r o hl
    rw [ht] at hl
    exact h r o hl
  | _ => cases h

/-! ### One order, over one store call -/

/-- Only a cancel goes on as a cancel. -/
theorem cancels_back (hc : StoreCall cap pid fresh s u op op') (h : Cancels d op') :
    Cancels d op := by
  have hd := does hc.made
  generalize u.tables = t at hd
  cases hd with
  | readsCancelled | cancelsOffering | findsNoOffering | cancelsAssigned | releasesCancelled =>
    exact h
  | _ => cases h

/-- A store call keeps what the awaits of the order know; `awaited` says that it is made
by the `find_and_offer` that the workflow waits for. -/
theorem OfferOk.call {pc : Pc} {t : Attempt CallPhase Answer}
    (hc : StoreCall cap pid fresh s u op op') (hm : Minted s) (h : OfferOk s d pc t)
    (haside : ¬ (pc = .findAndOffer ∧ t = .working (.waiting pid)) → Aside s u op d)
    (hput : ∀ r o, op = .putOffering d r o → ∀ q ∈ s.tables.deliveries d, q.state = .offering)
    (hncan : cancelling pc = false → ¬ Cancels d op) (hfact : CancelFact s d op) :
    OfferOk u d pc t := by
  by_cases hpid : t = .working (.waiting pid)
  · subst hpid
    have hu := fun hne : pc ≠ .findAndOffer =>
      undisturbed_call hc hm (haside fun h => hne h.1) hfact
    cases pc with
    | findAndOffer =>
      obtain ⟨o, ho, hok⟩ := h
      cases hc.at_pid.symm.trans ho
      exact ⟨op', hc.next, hok.call hc hput⟩
    | expireOffer offer rider =>
      obtain ⟨o, ho, hok⟩ := h
      cases hc.at_pid.symm.trans ho
      exact ⟨op', hc.next, hok.call hc⟩
    | cancelDispatch =>
      have hfree := OfferOk.freeable h rfl
      obtain ⟨o, ho, hok⟩ := h
      cases hc.at_pid.symm.trans ho
      have hcan : Cancels d op := by
        have hmade := hc.made
        cases op with
        | answered o => cases hmade
        | _ => first | exact hok.1 | cases hok
      exact ⟨op', hc.next, (cancel_call hc hm hcan hfact hfree).2⟩
    | awaitAccept offer rider => exact Live.mono (hu nofun) (hncan rfl) h
    | cancelled => exact ⟨h.1.mono (hu nofun), (hu nofun).final h.2⟩
    | _ => exact NoLock.mono (hu nofun) h
  · have ha : Aside s u op d := haside fun h => hpid h.2
    refine h.mono (undisturbed_call hc hm ha hfact) hncan fun j o ht ho => ?_
    rw [hc.other, ho]
    rintro rfl
    exact hpid ht

/-- **A store call keeps the invariant of every order** whose offers stay in sight. -/
theorem OrderOk.call {i : Inst Pos CallPhase Answer} (hc : StoreCall cap pid fresh s u op op')
    (hm : Minted s) (hi : OrderOk s d i)
    (hres : ∀ r cs, op = .reserve d (r :: cs) →
      ((s.tables.riders r).reserve fresh d cap).isSome →
      i.pos.pc = .findAndOffer ∧ i.attempt = .working (.waiting pid))
    (hput : ∀ r o, op = .putOffering d r o →
      ∀ q ∈ s.tables.deliveries d, q.state = .offering) : OrderOk u d i := by
  have haside : ¬ (i.pos.pc = .findAndOffer ∧ i.attempt = .working (.waiting pid)) →
      Aside s u op d := by
    refine fun hna => ⟨fun r o hl => ?_, fun r o he => hna (hi.puts pid r o (he ▸ hc.at_pid))⟩
    rcases opStep_locked hc.made hl with hold | ⟨-, -, hop'⟩
    · exact hold
    · obtain ⟨⟨cs, hcs⟩, -, hsome⟩ := opStep_puts hc.made hop'
      exact absurd (hres r cs hcs hsome) hna
  have hncan : cancelling i.pos.pc = false → ¬ Cancels d op := fun hpc => hi.calm hpc op hc.mem
  have hfact : CancelFact s d op := hi.fact op hc.mem
  refine ⟨hi.offers.call hc hm haside hput hncan hfact, fun j r o hj => ?_, fun hpc o ho => ?_,
    fun o ho => ?_, fun o r ho => (hi.told o r ho).step hc.step⟩
  · by_cases hjp : pid = j
    · subst hjp
      have hop' : op' = .putOffering d r o := Option.some.inj (hc.next.symm.trans hj)
      obtain ⟨⟨cs, hcs⟩, -, hsome⟩ := opStep_puts hc.made hop'
      exact hres r cs hcs hsome
    · exact hi.puts j r o ((hc.other hjp).symm.trans hj)
  · intro hcan
    rcases hc.mem_cases ho with ho | rfl
    · exact hi.calm hpc o ho hcan
    · exact hncan hpc (cancels_back hc hcan)
  · by_cases hcan : Cancels d o
    · -- a cancel is under way, so no offer is being made
      have hpc : cancelling i.pos.pc = true := by
        by_contra hpc
        have hpc : cancelling i.pos.pc = false := by simpa using hpc
        rcases hc.mem_cases ho with ho | rfl
        · exact hi.calm hpc o ho hcan
        · exact hncan hpc (cancels_back hc hcan)
      have ha : Aside s u op d := haside fun h => by rw [h.1] at hpc; cases hpc
      rcases hc.mem_cases ho with ho | rfl
      · exact (hi.fact o ho).mono (undisturbed_call hc hm ha hfact)
      · exact (cancel_call hc hm (cancels_back hc hcan) hfact (hi.offers.freeable hpc)).1
    · exact cancelFact_of_not hcan

end

end Cascade

end Order
