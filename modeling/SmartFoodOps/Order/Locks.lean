/-
No orphaned offer lock, unless an offer gets out of the workflow's sight.

A lock has no expiry: it goes by an accept, by the expiry of its offer, or by a cancel,
and only the workflow of its order asks for the last two.

* `Accounted` — no offer gets lost: a rider is locked by the execution that the workflow
  waits for, its answer comes in, and its row is written;
* `OfferOk` — what each await of the workflow knows about the locks of its order;
* `inv_of_run` — hence every lock is in sight;
* `no_orphaned_lock` — a lock has its OFFERING row, and an ended workflow has no lock;
* `orphaned_lock` — one lost answer of `find_and_offer` locks a rider out for good.
-/
import SmartFoodOps.Order.Sight

open Machine Durable Dispatch

namespace Order

namespace Cascade

open Delivery

/-! ### The condition -/

/-- The workflow of the order waits for the execution. -/
def Awaited (s : System) (d : OrderId) (pid : ℕ) : Prop :=
  (s.insts d).pos.pc = .findAndOffer ∧ (s.insts d).attempt = .working (.waiting pid)

instance (s : System) (d : OrderId) (pid : ℕ) : Decidable (Awaited s d pid) :=
  inferInstanceAs (Decidable (_ ∧ _))

/-- The activity that a workflow awaits has an offer: it is being put, or its rider is
still locked. -/
def holding (s : Dispatch.System) (i : Inst Pos CallPhase Answer) : Bool :=
  match i.pos.pc, i.attempt with
  | .findAndOffer, .working (.waiting pid) =>
    match s.ops[pid]? with
    | some (.putOffering _ _ _) => true
    | some (.answered (.offered offer rider)) => (s.tables.riders rider).locks offer
    | _ => false
  | .findAndOffer, .answered (.outcome (.offered offer rider)) =>
    (s.tables.riders rider).locks offer
  | .expireOffer offer rider, _ => (s.tables.riders rider).locks offer
  | _, _ => false

/-- The store calls that keep an offer in sight: a reservation that applies is made by
the execution the workflow waits for, and the offer's row is written. -/
def SeenCall (cap : ℕ) (s : System) (pid : ℕ) (fresh : OfferId) (op : Op) : Prop :=
  match op with
  | .reserve d (rider :: _) =>
    ((s.world.dispatch.tables.riders rider).reserve fresh d cap).isSome → Awaited s d pid
  | .putOffering d _ _ => ∀ q ∈ s.world.dispatch.tables.deliveries d, q.state = .offering
  | _ => True

instance (cap : ℕ) (s : System) (pid : ℕ) (fresh : OfferId) (op : Op) :
    Decidable (SeenCall cap s pid fresh op) :=
  match op with
  | .reserve d (rider :: _) =>
    (inferInstance : Decidable
      (((s.world.dispatch.tables.riders rider).reserve fresh d cap).isSome → Awaited s d pid))
  | .putOffering d _ _ =>
    (inferInstance : Decidable
      (∀ q ∈ s.world.dispatch.tables.deliveries d, q.state = .offering))
  | .reserve _ [] | .releaseExpired .. | .readExpired .. | .unassign .. | .finishUnassigned ..
  | .readCancelled .. | .cancelOffering .. | .cancelAssigned .. | .releaseCancelled ..
  | .finishCancelled .. | .accept .. | .readAccepted .. | .assign .. | .markPickedUp ..
  | .readPickedUp .. | .markDelivered .. | .readDelivered .. | .finishDelivered ..
  | .answered .. => .isTrue trivial

/-- No offer gets lost in the step: neither with an execution of FIND_AND_OFFER nor with
a cancellation that hits an activity. -/
def Accounted (cap : ℕ) (s : System) (l : Label) : Prop :=
  match l with
  | .env (.dispatch (.run pid fresh)) =>
    ∀ op ∈ s.world.dispatch.ops[pid]?, SeenCall cap s pid fresh op
  | .flow d .lose =>
    (s.insts d).pos.pc = .findAndOffer → holding s.world.dispatch (s.insts d) = false
  | .flow d (.event .cancel) =>
    (s.insts d).pos.pc.waits = true ∨ holding s.world.dispatch (s.insts d) = false
  | _ => True

instance (cap : ℕ) (s : System) (l : Label) : Decidable (Accounted cap s l) := by
  unfold Accounted
  split <;> infer_instance

/-- A cancel of the order is about to release a rider. -/
def Releases (d : OrderId) : Op → Prop
  | .releaseCancelled e _ => e = d
  | _ => False

instance (d : OrderId) (op : Op) : Decidable (Releases d op) :=
  match op with
  | .releaseCancelled e _ => (inferInstance : Decidable (e = d))
  | .reserve .. | .putOffering .. | .releaseExpired .. | .readExpired .. | .unassign ..
  | .finishUnassigned .. | .readCancelled .. | .cancelOffering .. | .cancelAssigned ..
  | .finishCancelled .. | .accept .. | .readAccepted .. | .assign .. | .markPickedUp ..
  | .readPickedUp .. | .markDelivered .. | .readDelivered .. | .finishDelivered ..
  | .answered .. => .isFalse id

/-- The result of a clean-up reaches the workflow when no other execution of it has yet
to release the rider. -/
def CleanedUp (s : System) (l : Label) : Prop :=
  match l with
  | .flow d .report =>
    (s.insts d).pos.pc = .cancelDispatch → ∀ op ∈ s.world.dispatch.ops, ¬ Releases d op
  | _ => True

instance (s : System) (l : Label) : Decidable (CleanedUp s l) := by
  unfold CleanedUp
  split <;> infer_instance

/-! ### Requests, taps and presence -/

section

variable {cap : ℕ} {s u : Dispatch.System} {d : OrderId} {i : Inst Pos CallPhase Answer}

/-- A request that arrives, and a rider who comes or goes, disturb nobody. -/
theorem undisturbed_step {e : Dispatch.Event} (h : Dispatch.step cap s e = some u)
    (he : ∀ pid fresh, e ≠ .run pid fresh) :
    Undisturbed s u d True ∧ ∀ (pid : ℕ) op, s.ops[pid]? = some op → u.ops[pid]? = some op := by
  have hconv : ∀ {offer}, Converted s offer → Converted u offer := fun hc => hc.step h
  rcases Dispatch.step_cases h with ⟨c, -, rfl⟩ | ⟨pid, fresh, _, _, _, hrun, -⟩ |
    ⟨rider, p, -, rfl⟩
  · refine ⟨⟨fun _ _ hl => hl, fun _ _ _ hrow => .inl hrow, fun _ _ _ hrow => hrow,
      fun r o _ ⟨seen, hmem, h'⟩ => ⟨seen, List.mem_append_left _ hmem, h'⟩,
      fun h q hq hs => hconv (h q hq hs),
      fun h => ⟨fun q hq hs => hconv (h.1 q hq hs), h.2⟩⟩, fun pid op hop => ?_⟩
    exact (List.getElem?_append_left (List.getElem?_eq_some_iff.mp hop).1).trans hop
  · exact absurd hrun (he pid fresh)
  · have hkept : ∀ r o, (s.tables.setRider rider { s.tables.riders rider with status := p }).Locked
        r o d → s.tables.Locked r o d := by
      intro r o hl
      rw [locked_setRider] at hl
      split at hl
      · next hr => subst hr; exact hl
      · exact hl
    exact ⟨⟨hkept, fun _ _ _ hrow => .inl hrow, fun _ _ _ hrow => hrow, fun _ _ _ hp => hp,
      fun h q hq hs => hconv (h q hq hs),
      fun h => ⟨fun q hq hs => hconv (h.1 q hq hs), h.2⟩⟩, fun _ _ hop => hop⟩

/-- The operations after such a step. -/
theorem mem_ops_step {e : Dispatch.Event} (h : Dispatch.step cap s e = some u)
    (he : ∀ pid fresh, e ≠ .run pid fresh) {o : Op} (ho : o ∈ u.ops) :
    o ∈ s.ops ∨ ∃ c, e = .start c ∧ o = c.begin := by
  rcases Dispatch.step_cases h with ⟨c, rfl, rfl⟩ | ⟨pid, fresh, _, _, _, hrun, -⟩ |
    ⟨rider, p, -, rfl⟩
  · rcases List.mem_append.mp ho with ho | ho
    · exact .inl ho
    · exact .inr ⟨c, rfl, List.mem_singleton.mp ho⟩
  · exact absurd hrun (he pid fresh)
  · exact .inl ho

theorem cancels_begin {c : Call} (h : Cancels d c.begin) : c = .cancel d := by
  cases c with
  | cancel e => cases h; rfl
  | _ => cases h

/-- No operation starts in the midst of a cancel. -/
theorem cancelFact_begin (c : Call) : CancelFact s d c.begin := by
  cases c <;> trivial

/-- An offer that is being put was being put before. -/
theorem put_back {e : Dispatch.Event} (h : Dispatch.step cap s e = some u)
    (he : ∀ pid fresh, e ≠ .run pid fresh) {j : ℕ} {r : RiderId} {o : OfferId}
    (hj : u.ops[j]? = some (.putOffering d r o)) : s.ops[j]? = some (.putOffering d r o) := by
  rcases Dispatch.step_cases h with ⟨c, -, rfl⟩ | ⟨pid, fresh, _, _, _, hrun, -⟩ |
    ⟨rider, p, -, rfl⟩
  · rw [List.getElem?_append] at hj
    split at hj
    · exact hj
    · exact absurd (List.mem_singleton.mp (List.mem_of_getElem? hj)).symm
        (c.begin_ne_putOffering _ _ _)
  · exact absurd hrun (he pid fresh)
  · exact hj

theorem OrderOk.step {e : Dispatch.Event} (hi : OrderOk s d i)
    (h : Dispatch.step cap s e = some u) (he : ∀ pid fresh, e ≠ .run pid fresh)
    (hcan : e = .start (.cancel d) → cancelling i.pos.pc = true) : OrderOk u d i := by
  obtain ⟨hu, hops⟩ := undisturbed_step (d := d) h he
  refine ⟨hi.offers.mono hu (fun _ => trivial) fun pid op _ => hops pid op,
    fun j r o hj => hi.puts j r o (put_back h he hj), fun hpc o ho => ?_, fun o ho => ?_,
    fun o r ho => (hi.told o r ho).step h⟩
  · rcases mem_ops_step h he ho with ho | ⟨c, rfl, rfl⟩
    · exact hi.calm hpc o ho
    · intro hc
      cases cancels_begin hc
      rw [hcan rfl] at hpc
      cases hpc
  · rcases mem_ops_step h he ho with ho | ⟨c, -, rfl⟩
    · exact (hi.fact o ho).mono hu
    · exact cancelFact_begin c

/-! ### The moves of a workflow -/

/-- A new await, with nothing being put. -/
theorem OrderOk.enter {p : Pos} (hi : OrderOk s d i)
    (hput : ∀ (pid : ℕ) r o, s.ops[pid]? ≠ some (.putOffering d r o))
    (hoffers : OfferOk s d p.pc (.working .send))
    (hcalm : cancelling p.pc = false → cancelling i.pos.pc = false)
    (htold : p.told = i.pos.told) : OrderOk s d (.enter worker p) :=
  ⟨hoffers, fun pid r o hp => absurd hp (hput pid r o), fun hpc => hi.calm (hcalm hpc), hi.fact,
    fun o r ho => hi.told o r (by rw [← htold]; exact ho)⟩

/-- Nothing is put for a workflow that waits for no `find_and_offer`. -/
theorem OrderOk.no_put (hi : OrderOk s d i)
    (h : ∀ pid, i.pos.pc = .findAndOffer → i.attempt ≠ .working (.waiting pid)) (pid : ℕ)
    (r : RiderId) (o : OfferId) : s.ops[pid]? ≠ some (.putOffering d r o) :=
  fun hp => h pid (hi.puts pid r o hp).1 (hi.puts pid r o hp).2

theorem nextRound_ok {p : Pos} (h : NoLock s d) : OfferOk s d (nextRound p).pc (.working .send) := by
  rcases nextRound_pc p with hpc | hpc <;> rw [hpc] <;> exact h

@[simp] theorem nextRound_told (p : Pos) : (nextRound p).told = p.told := by
  unfold nextRound
  split <;> rfl

/-- The result of an activity tells what became of its offer. -/
theorem OfferOk.report {p : Pos} {answer : Answer} (h : OfferOk s d p.pc (.answered answer))
    (ha : Delivery.activity p ≠ none) :
    OfferOk s d (afterAnswer p answer).pc (.working .send) := by
  obtain ⟨pc, attempt, exclude, past, told⟩ := p
  cases pc with
  | findAndOffer =>
    cases answer with
    | outcome o =>
      cases o with
      | offered offer rider => exact h
      | _ => exact h
    | done => exact h
  | expireOffer offer candidate =>
    cases answer with
    | outcome o =>
      cases o with
      | alreadyAssigned rider => exact h
      | _ => exact nextRound_ok h
    | done => exact nextRound_ok h
  | unassignStalled rider =>
    cases answer with
    | outcome o =>
      cases o with
      | alreadyPickedUp => exact h
      | _ => exact nextRound_ok h
    | done => exact nextRound_ok h
  | recordRider rider => exact h
  | markPickedUp rider => exact h
  | markDelivered => exact h
  | cancelDispatch => exact h
  | _ => exact absurd rfl ha

theorem afterAnswer_told (p : Pos) (answer : Answer) : (afterAnswer p answer).told = p.told := by
  unfold afterAnswer
  split <;> (try split) <;> simp

/-- The only activity amid a cancel is the clean-up. -/
theorem cancelDispatch_of_cancelling {p : Pos} (ha : Delivery.activity p ≠ none)
    (h : cancelling p.pc = true) : p.pc = .cancelDispatch := by
  obtain ⟨pc, attempt, exclude, past, told⟩ := p
  cases pc <;> first | rfl | exact absurd rfl ha | cases h

theorem calm_report {p : Pos} {answer : Answer} (ha : Delivery.activity p ≠ none)
    (h : cancelling (afterAnswer p answer).pc = false) : cancelling p.pc = false := by
  by_contra hn
  have hpc := cancelDispatch_of_cancelling ha (by simpa using hn)
  simp [afterAnswer, hpc, cancelling] at h

/-- A failure that is not retried loses no offer: dispatch calls do not fail so. -/
theorem OfferOk.refused {p : Pos} (h : OfferOk s d p.pc .refused)
    (ha : Delivery.activity p ≠ none) : OfferOk s d (afterFailure p).pc (.working .send) := by
  obtain ⟨pc, attempt, exclude, past, told⟩ := p
  cases pc with
  | findAndOffer => cases h
  | expireOffer => cases h
  | cancelDispatch => cases h
  | unassignStalled rider => exact h
  | recordRider rider => exact h
  | markPickedUp rider => exact h
  | markDelivered => exact h
  | _ => exact absurd rfl ha

theorem not_locks {rider : RiderId} {offer : OfferId}
    (h : (s.tables.riders rider).locks offer = false) (e : OrderId) :
    ¬ s.tables.Locked rider offer e := by
  intro hl
  rw [RiderState.locks_iff.mpr ⟨e, hl⟩] at h
  cases h

theorem Live.gone {rider : RiderId} {offer : OfferId} (h : Live s d rider offer)
    (hg : ∀ r, ¬ s.tables.Locked r offer d) : NoLock s d := by
  intro r o hl
  obtain ⟨rfl, rfl, -⟩ := h r o hl
  exact hg r hl

theorem ExpireOk.live {rider : RiderId} {offer : OfferId} {op : Op}
    (h : ExpireOk s d offer rider op) : Live s d rider offer := by
  cases op with
  | releaseExpired => exact h.2.2
  | readExpired => exact NoLock.live h
  | answered => exact NoLock.live h
  | _ => cases h

/-- The offer that is about to expire. -/
theorem OfferOk.live {rider : RiderId} {offer : OfferId} {t : Attempt CallPhase Answer}
    (h : OfferOk s d (.expireOffer offer rider) t) : Live s d rider offer := by
  cases t with
  | working phase =>
    cases phase with
    | send => exact h
    | waiting pid =>
      obtain ⟨op, -, hop⟩ := h
      exact hop.live
  | answered answer => exact NoLock.live h
  | refused => cases h

/-- An activity that holds no offer has locked nobody. -/
theorem OfferOk.noLock {i : Inst Pos CallPhase Answer} (h : OfferOk s d i.pos.pc i.attempt)
    (hh : holding s i = false) (hpc : i.pos.pc ≠ .cancelDispatch)
    (ha : Delivery.activity i.pos ≠ none) : NoLock s d := by
  obtain ⟨⟨pc, attempt, exclude, past, told⟩, t⟩ := i
  cases pc with
  | findAndOffer =>
    cases t with
    | working phase =>
      cases phase with
      | send => exact h
      | waiting pid =>
        obtain ⟨op, hop, hok⟩ := h
        simp only [holding, hop] at hh
        cases op with
        | reserve => exact hok.2
        | putOffering => cases hh
        | answered o =>
          cases o with
          | offered offer rider =>
            exact Live.gone hok fun r hl => by
              obtain ⟨rfl, -, -⟩ := hok r offer hl
              exact not_locks hh d hl
          | _ => exact hok
        | _ => cases hok
    | answered answer =>
      cases answer with
      | outcome o =>
        cases o with
        | offered offer rider =>
          exact Live.gone h fun r hl => by
            obtain ⟨rfl, -, -⟩ := h r offer hl
            exact not_locks hh d hl
        | _ => exact h
      | done => exact h
    | refused => cases h
  | expireOffer offer rider =>
    refine h.live.gone fun r hl => ?_
    obtain ⟨rfl, -, -⟩ := h.live r offer hl
    exact not_locks hh d hl
  | cancelDispatch => exact absurd rfl hpc
  | unassignStalled => exact h
  | recordRider => exact h
  | markPickedUp => exact h
  | markDelivered => exact h
  | _ => exact absurd rfl ha

/-- Nothing is being put for an activity that holds no offer. -/
theorem OrderOk.no_put_of_holding (hi : OrderOk s d i) (hh : holding s i = false) (pid : ℕ)
    (r : RiderId) (o : OfferId) : s.ops[pid]? ≠ some (.putOffering d r o) := by
  intro hp
  obtain ⟨hpc, ht⟩ := hi.puts pid r o hp
  simp [holding, hpc, ht, hp] at hh

theorem OfferOk.start {pc : Pc} (c : Call) (h : OfferOk s d pc (.working .send)) :
    OfferOk { s with ops := s.ops ++ [c.begin] } d pc (.working .send) := by
  have hstep : Dispatch.step 0 s (.start c) = some { s with ops := s.ops ++ [c.begin] } := rfl
  obtain ⟨hu, hops⟩ := undisturbed_step (d := d) hstep nofun
  exact h.mono hu (fun _ => trivial) fun pid op _ => hops pid op

/-- The request of an activity. -/
theorem OfferOk.send {p : Pos} {a : Activity} {c : Call} {candidates : List RiderId}
    (h : OfferOk s d p.pc (.working .send)) (ha : Delivery.activity p = some a)
    (hc : dispatchCall d candidates a = some c) :
    OfferOk { s with ops := s.ops ++ [c.begin] } d p.pc (.working (.waiting s.ops.length)) := by
  have h' := h.start c
  have hnext : (s.ops ++ [c.begin])[s.ops.length]? = some c.begin := by simp
  obtain ⟨pc, attempt, exclude, past, told⟩ := p
  cases pc with
  | findAndOffer =>
    cases ha
    cases hc
    exact ⟨_, hnext, rfl, h'⟩
  | expireOffer offer rider =>
    cases ha
    cases hc
    exact ⟨_, hnext, rfl, rfl, h'⟩
  | cancelDispatch =>
    cases ha
    cases hc
    exact ⟨_, hnext, rfl, h'⟩
  | unassignStalled rider => exact h'
  | recordRider | markPickedUp | markDelivered =>
    cases ha
    cases hc
  | _ => cases ha

/-- The answer of an execution. -/
theorem OfferOk.answer {pc : Pc} {pid : ℕ} {o : Outcome}
    (h : OfferOk s d pc (.working (.waiting pid))) (hop : s.ops[pid]? = some (.answered o)) :
    OfferOk s d pc (.answered (.outcome o)) := by
  cases pc with
  | findAndOffer =>
    obtain ⟨op, hop', hok⟩ := h
    cases hop.symm.trans hop'
    cases o <;> exact hok
  | expireOffer offer rider =>
    obtain ⟨op, hop', hok⟩ := h
    cases hop.symm.trans hop'
    exact hok
  | cancelDispatch =>
    obtain ⟨op, hop', hok⟩ := h
    cases hop.symm.trans hop'
    exact hok
  | _ => exact h

/-- An activity without a dispatch call. -/
theorem OfferOk.local {p : Pos} {a : Activity} {candidates : List RiderId}
    {t t' : Attempt CallPhase Answer} (h : OfferOk s d p.pc t) (ha : Delivery.activity p = some a)
    (hc : dispatchCall d candidates a = none) : OfferOk s d p.pc t' := by
  obtain ⟨pc, attempt, exclude, past, told⟩ := p
  cases pc with
  | recordRider rider => exact h
  | markPickedUp rider => exact h
  | markDelivered => exact h
  | findAndOffer | expireOffer | cancelDispatch | unassignStalled =>
    cases ha
    cases hc
  | _ => cases ha

/-- A cancel is requested only by the clean-up. -/
theorem cancelling_of_call {p : Pos} {a : Activity} {candidates : List RiderId}
    (ha : Delivery.activity p = some a) (hc : dispatchCall d candidates a = some (.cancel d)) :
    cancelling p.pc = true := by
  obtain ⟨pc, attempt, exclude, past, told⟩ := p
  cases pc <;> cases ha <;> first | rfl | cases hc

/-- **A step of an attempt.** -/
theorem OrderOk.work {w w' : World} {a : Activity} {phase : CallPhase} {input : Input}
    {t : Attempt CallPhase Answer} (hi : OrderOk w.dispatch d i)
    (ha : Delivery.activity i.pos = some a) (ht : i.attempt = .working phase)
    (hw : work d a phase input w = some (w', t)) : OrderOk w'.dispatch d ⟨i.pos, t⟩ := by
  have hoffers := hi.offers
  rw [ht] at hoffers
  rcases work_cases hw with ⟨c, hc, rfl, rfl, rfl⟩ | ⟨c, pid, o, hc, rfl, hop, rfl, rfl⟩ |
    ⟨hc, rfl, -⟩
  · have hi' : OrderOk (w.call c).dispatch d i := hi.step (call_step 0 w c) nofun fun he => by
      cases he
      exact cancelling_of_call ha hc
    refine ⟨hoffers.send ha hc, fun pid r o hp => ?_, hi'.calm, hi'.fact, hi'.told⟩
    have := (hi'.puts pid r o hp).2
    rw [ht] at this
    cases this
  · refine ⟨hoffers.answer hop, fun j r o hp => ?_, hi.calm, hi.fact, hi.told⟩
    have := (hi.puts j r o hp).2
    rw [ht] at this
    cases this
    rw [hop] at hp
    cases hp
  · refine ⟨hoffers.local ha hc, fun j r o hp => ?_, hi.calm, hi.fact, hi.told⟩
    obtain ⟨hpc, -⟩ := hi.puts j r o hp
    simp only [Delivery.activity, hpc, Option.some.injEq] at ha
    subst ha
    cases hc

/-- The end of a wait. -/
theorem OfferOk.event {p p' : Pos} {t : Attempt CallPhase Answer} {e : Delivery.Event}
    (h : OfferOk s d p.pc t) (he : afterWait p e = some p') (hne : e ≠ .cancel)
    (htold : ∀ o r, p.told.accepted o = some r → Spent s o) :
    OfferOk s d p'.pc (.working .send) ∧ p'.told = p.told ∧
      cancelling p.pc = false ∧ p.pc ≠ .findAndOffer := by
  obtain ⟨pc, attempt, exclude, past, told⟩ := p
  cases e with
  | wake =>
    cases pc with
    | awaitFood =>
      simp only [afterWait] at he
      split at he <;> cases he
      exact ⟨nextRound_ok h, nextRound_told _, rfl, (by rintro ⟨⟩)⟩
    | awaitAccept offer candidate =>
      obtain ⟨rider, hr, rfl⟩ := Option.map_eq_some_iff.mp he
      -- the accept has taken the lock
      exact ⟨Live.gone h fun r => (htold _ _ hr).2 r d, rfl, rfl, (by rintro ⟨⟩)⟩
    | awaitPickup rider =>
      simp only [afterWait] at he
      split at he <;> cases he
      exact ⟨h, rfl, rfl, (by rintro ⟨⟩)⟩
    | awaitDelivered rider =>
      simp only [afterWait] at he
      split at he <;> cases he
      exact ⟨h, rfl, rfl, (by rintro ⟨⟩)⟩
    | _ => cases he
  | timeout =>
    cases pc with
    | breather =>
      cases he
      exact ⟨nextRound_ok h, nextRound_told _, rfl, (by rintro ⟨⟩)⟩
    | awaitAccept offer candidate => cases he; exact ⟨h, rfl, rfl, (by rintro ⟨⟩)⟩
    | awaitPickup rider => cases he; exact ⟨h, rfl, rfl, (by rintro ⟨⟩)⟩
    | _ => cases he
  | cancel => exact absurd rfl hne

/-- A cancellation, in a wait or in an activity that holds no offer. -/
theorem OrderOk.cancel {p' : Pos} (hi : OrderOk s d i) (he : Delivery.cancel i.pos = some p')
    (hok : i.pos.pc.waits = true ∨ holding s i = false) : OrderOk s d (.enter worker p') := by
  have hpc := cancel_pc he
  have htold : p'.told = i.pos.told := by
    unfold Delivery.cancel at he
    split at he <;> cases he <;> rfl
  cases hw : i.pos.pc.waits with
  | true =>
    rw [hw] at hpc
    have hnf : i.pos.pc ≠ .findAndOffer := fun h => by rw [h] at hw; cases hw
    refine hi.enter (hi.no_put fun _ h => absurd h hnf) ?_ (fun h => ?_) htold
    · rw [hpc]
      have hoffers := hi.offers
      show Freeable s d
      cases hpc' : i.pos.pc <;> rw [hpc'] at hoffers hw <;> try cases hw
      · exact NoLock.freeable hoffers
      · exact NoLock.freeable hoffers
      · exact Live.freeable hoffers
      · exact NoLock.freeable hoffers
      · exact NoLock.freeable hoffers
    · rw [hpc] at h
      cases h
  | false =>
    rw [hw] at hpc
    have hh := hok.resolve_left (by simp [hw])
    have hncd : i.pos.pc ≠ .cancelDispatch := fun h => by simp [Delivery.cancel, h] at he
    have hact : Delivery.activity i.pos ≠ none := by
      intro h
      cases hpc' : i.pos.pc <;> simp [Delivery.activity, Delivery.cancel, Pc.waits, hpc'] at h he hw
    refine hi.enter (hi.no_put_of_holding hh) ?_ (fun _ => ?_) htold
    · rw [hpc]
      exact hi.offers.noLock hh hncd hact
    · cases hpc' : i.pos.pc <;> first | rfl | simp [Delivery.cancel, hpc'] at he

theorem OfferOk.restart (h : OfferOk s d i.pos.pc i.attempt) (ha : Delivery.activity i.pos ≠ none)
    (hh : i.pos.pc = .findAndOffer → holding s i = false) :
    OfferOk s d i.pos.pc (.working .send) := by
  cases hpc : i.pos.pc with
  | findAndOffer => exact h.noLock (hh hpc) (by rw [hpc]; nofun) ha
  | expireOffer offer rider =>
    rw [hpc] at h
    exact h.live
  | cancelDispatch =>
    rw [hpc] at h
    exact h.freeable rfl
  | _ =>
    rw [hpc] at h
    exact h

/-- A signal that the relay was asked to deliver. -/
theorem OrderOk.signal (hi : OrderOk s d i) (n : News)
    (hn : ∀ o r, n = .signal (.offerAccepted o r) → Spent s o) :
    OrderOk s d ⟨note i.pos n, i.attempt⟩ := by
  have hpc : (note i.pos n).pc = i.pos.pc := note_pc _ _
  refine ⟨by rw [hpc]; exact hi.offers, by rw [hpc]; exact hi.puts, by rw [hpc]; exact hi.calm,
    hi.fact, fun o r ho => ?_⟩
  cases n with
  | deadline => exact hi.told o r ho
  | signal sig =>
    cases sig with
    | offerAccepted offer rider =>
      by_cases hoo : o = offer
      · subst hoo
        exact hn o rider rfl
      · exact hi.told o r (by simpa [note, CourierSignals.raise, hoo] using ho)
    | _ => exact hi.told o r ho

/-- **One move of the order's workflow.** -/
theorem OrderOk.move {w w' : World} {i' : Inst Pos CallPhase Answer}
    {m : Move Input News Delivery.Event} (hi : OrderOk w.dispatch d i)
    (hm : Durable.move Delivery.flow worker d w i m = some (w', i'))
    (hsignal : ∀ o r, m = .signal (.signal (.offerAccepted o r)) → Spent w.dispatch o)
    (hlose : m = .lose → i.pos.pc = .findAndOffer → holding w.dispatch i = false)
    (hcancel : m = .event .cancel → i.pos.pc.waits = true ∨ holding w.dispatch i = false) :
    OrderOk w'.dispatch d i' := by
  have hne : ∀ {a}, Delivery.activity i.pos = some a → Delivery.activity i.pos ≠ none :=
    fun ha => by rw [ha]; nofun
  rcases move_cases hm with ⟨input, a, phase, t, -, ha, ht, hw, rfl⟩ | ⟨rfl, hrest⟩
  · exact hi.work ha ht hw
  · rcases hrest with ⟨rfl, ⟨a, ha⟩, rfl⟩ | ⟨a, answer, -, ha, ht, rfl⟩ | ⟨a, -, ha, ht, rfl⟩ |
      ⟨-, -, -, hbound, -⟩ | ⟨n, rfl, rfl⟩ | ⟨e, pos, rfl, he, rfl⟩
    · have hact := hne ha
      refine hi.enter ?_ (hi.offers.restart hact (hlose rfl)) id rfl
      by_cases hpc : i.pos.pc = .findAndOffer
      · exact hi.no_put_of_holding (hlose rfl hpc)
      · exact hi.no_put fun _ h => absurd h hpc
    · have hact := hne ha
      have hoffers := hi.offers
      rw [ht] at hoffers
      exact hi.enter (hi.no_put fun _ _ => by rw [ht]; nofun) (hoffers.report hact)
        (calm_report hact) (afterAnswer_told _ _)
    · have hact := hne ha
      have hoffers := hi.offers
      rw [ht] at hoffers
      refine hi.enter (hi.no_put fun _ _ => by rw [ht]; nofun) (hoffers.refused hact)
        (fun _ => ?_) rfl
      by_contra hn
      rw [cancelDispatch_of_cancelling hact (by simpa using hn)] at hoffers
      exact hoffers
    · cases hbound
    · exact hi.signal n fun o r hn => hsignal o r (by rw [hn])
    · by_cases hec : e = .cancel
      · subst hec
        exact hi.cancel he (hcancel rfl)
      · obtain ⟨hoffers, htold, hcalm, hnf⟩ := hi.offers.event he hec hi.told
        exact hi.enter (hi.no_put fun _ h => absurd h hnf) hoffers (fun _ => hcalm) htold

end

/-! ### The run -/

/-- What the relay is asked to say about an accept is true. -/
theorem facts_relayed {cap pid : ℕ} {fresh : OfferId} {s u : Dispatch.System} {op op' : Op}
    {d : OrderId} {o : OfferId} {r : RiderId} (hc : StoreCall cap pid fresh s u op op')
    (hm : Minted s) (h : Fact.relayed d (.offerAccepted o r) ∈ facts s.tables op op') :
    Spent u o := by
  have hmade := hc.made
  unfold facts at h
  split at h
  · cases List.mem_singleton.mp h
  · have hspent := (hm.assigning hc.mem).step hc.step
    rcases List.mem_append.mp h with h | h
    · split at h
      · cases List.mem_singleton.mp h
      · cases h
    · cases List.mem_singleton.mp h
      exact hspent
  · simp only [opStep, Option.some.injEq, Prod.mk.injEq] at hmade
    cases List.mem_singleton.mp h
    have hb : acceptedBefore (s.tables.deliveries d) r o = true := by
      by_contra hb
      rw [if_neg hb] at hmade
      cases hmade.2
    -- the order was taken under the offer
    rw [acceptedBefore, Option.any_eq_true] at hb
    obtain ⟨q, hq, hb⟩ := hb
    simp only [Bool.and_eq_true, beq_iff_eq, taken, decide_eq_true_eq] at hb
    obtain ⟨⟨-, rfl⟩, htaken⟩ := hb
    exact (hm.taken hq htaken).1.step hc.step
  all_goals simp at h

/-- **The invariant of a run.** -/
structure Inv (s : System) : Prop where
  minted : Minted s.world.dispatch
  relayed : ∀ d o r, Fact.relayed d (.offerAccepted o r) ∈ s.world.log → Spent s.world.dispatch o
  order : ∀ d, OrderOk s.world.dispatch d (s.insts d)

section

variable {cap : ℕ} {s u : System} {l : Label}

theorem inv_empty : Inv .empty where
  minted := minted_empty
  relayed _ _ _ h := nomatch (show _ ∈ [] from h)
  order _ := {
    offers := fun _ _ hl => nomatch hl
    puts := fun _ _ _ hp => nomatch hp
    calm := fun _ _ hop => nomatch hop
    fact := fun _ hop => nomatch hop
    told := fun _ _ ho => nomatch ho }

theorem dispatchCall_cancel {d e : OrderId} {candidates : List RiderId} {a : Activity}
    (h : dispatchCall d candidates a = some (.cancel e)) : e = d := by
  cases a <;> cases h
  rfl

/-- A step of dispatch that is not a store call, for all orders. -/
theorem Inv.quiet {e : Dispatch.Event} {w : World} (h : Inv s)
    (hs : Dispatch.step cap s.world.dispatch e = some w.dispatch) (hlog : w.log = s.world.log)
    (he : ∀ pid fresh, e ≠ .run pid fresh)
    (hcan : ∀ d, e = .start (.cancel d) → cancelling (s.insts d).pos.pc = true) :
    Inv { s with world := w } where
  minted := h.minted.step hs
  relayed d o r hr := by
    have hr : Fact.relayed d (.offerAccepted o r) ∈ s.world.log := by rw [← hlog]; exact hr
    exact (h.relayed d o r hr).step hs
  order d := (h.order d).step hs he (hcan d)

/-- A move of one workflow, for all orders. -/
theorem Inv.flow {d : OrderId} {m : Move Input News Delivery.Event} {w' : World}
    {i' : Inst Pos CallPhase Answer} (h : Inv s) (hp : Permitted s (.flow d m))
    (hok : Accounted cap s (.flow d m))
    (hm : Durable.move Delivery.flow worker d s.world (s.insts d) m = some (w', i')) :
    Inv ⟨w', Function.update s.insts d i'⟩ := by
  have hown : OrderOk w'.dispatch d i' := by
    refine (h.order d).move hm (fun o r hn => ?_) (fun hn => ?_) fun hn => ?_
    · subst hn
      rcases hp with hp | hp
      · cases hp
      · exact h.relayed d o r hp
    · subst hn; exact hok
    · subst hn; exact hok
  have hworld : Inv ⟨w', s.insts⟩ ∨ ∃ c a cs, w' = s.world.call c ∧
      dispatchCall d cs a = some c := by
    rcases move_cases hm with ⟨input, a, phase, t, -, -, -, hw, -⟩ | ⟨rfl, -⟩
    · rcases work_cases hw with ⟨c, hc, -, rfl, -⟩ | ⟨-, -, -, -, -, -, rfl, -⟩ | ⟨-, rfl, -⟩
      · exact .inr ⟨c, a, _, rfl, hc⟩
      · exact .inl h
      · exact .inl h
    · exact .inl h
  refine ⟨?_, ?_, fun e => ?_⟩
  · rcases hworld with h' | ⟨c, a, cs, rfl, -⟩
    · exact h'.minted
    · exact h.minted.step (call_step 0 _ c)
  · rcases hworld with h' | ⟨c, a, cs, rfl, -⟩
    · exact h'.relayed
    · exact fun d o r hr => (h.relayed d o r hr).step (call_step 0 _ c)
  · show OrderOk w'.dispatch e (Function.update s.insts d i' e)
    by_cases hed : e = d
    · subst hed
      rw [Function.update_self]
      exact hown
    · rw [Function.update_of_ne hed]
      rcases hworld with h' | ⟨c, a, cs, rfl, hc⟩
      · exact h'.order e
      · refine (h.order e).step (call_step 0 _ c) nofun fun he => ?_
        cases he
        exact absurd (dispatchCall_cancel hc) hed

theorem Inv.step (h : Inv s) (hok : Accounted cap s l) (hs : step cap s l = some u) : Inv u := by
  rcases step_cases hs with ⟨d, m, w', i', rfl, hp, hm, rfl⟩ | ⟨e, w', rfl, htap, he, rfl⟩ |
    ⟨d, rfl, hpc, rfl⟩
  · exact h.flow hp hok hm
  · obtain ⟨v, hv, rfl⟩ := Option.map_eq_some_iff.mp he
    cases e with
    | run pid fresh =>
      obtain ⟨op, op', hc⟩ := storeCall_of_step hv
      have hseen : SeenCall cap s pid fresh op := hok op hc.at_pid
      refine ⟨h.minted.step hv, fun d o r hr => ?_, fun d => ?_⟩
      · rcases List.mem_append.mp hr with hr | hr
        · exact (h.relayed d o r hr).step hv
        · have hr : Fact.relayed d (.offerAccepted o r) ∈ facts s.world.dispatch.tables op op' := by
            simpa [happened, hc.at_pid, hc.next] using hr
          exact facts_relayed hc h.minted hr
      · refine (h.order d).call hc h.minted (fun r cs ho hsome => ?_) fun r o ho => ?_
        · subst ho
          exact hseen hsome
        · subst ho
          exact hseen
    | start c =>
      refine h.quiet hv (by simp [happened]) (by simp) fun d hc => ?_
      cases hc
      exact absurd (htap _ rfl) (by simp [isTap])
    | online rider => exact h.quiet hv (by simp [happened]) (by simp) (by simp)
    | offline rider => exact h.quiet hv (by simp [happened]) (by simp) (by simp)
  · refine h.quiet (call_step 0 _ (.cancel d)) rfl (by simp) fun e he => ?_
    cases he
    rw [hpc]
    rfl

/-- **Every lock is in sight**, in every reachable state. -/
theorem inv_of_run {ok : System → Label → Prop} (hok : ∀ s l, ok s l → Accounted cap s l)
    {is : List Label} (h : Run (Cascade.step cap) ok .empty is s) : Inv s :=
  h.invariant inv_empty fun _ _ _ hi hl hs => hi.step (hok _ _ hl) hs

/-- With no call in flight a lock has its row. -/
theorem OfferOk.matched {s : Dispatch.System} {d : OrderId} {pc : Pc}
    {t : Attempt CallPhase Answer} {r : RiderId} {o : OfferId} (h : OfferOk s d pc t)
    (hq : Quiet s) (hl : s.tables.Locked r o d) :
    s.tables.deliveries d = some ⟨.offering, r, o⟩ := by
  have hlive : ∀ {rider offer}, Live s d rider offer →
      s.tables.deliveries d = some ⟨.offering, r, o⟩ := by
    intro rider offer hlive
    obtain ⟨rfl, rfl, hrow⟩ := hlive r o hl
    exact hrow
  have hpending : ¬ Pending s d r o := fun ⟨_, hmem, _⟩ => by cases hq _ hmem
  have hfree : Freeable s d → s.tables.deliveries d = some ⟨.offering, r, o⟩ :=
    fun h => (h r o hl).resolve_right hpending
  cases pc with
  | findAndOffer =>
    cases t with
    | working phase =>
      cases phase with
      | send => exact absurd hl (h r o)
      | waiting pid =>
        obtain ⟨op, hop, hok⟩ := h
        have hans := hq op (List.mem_of_getElem? hop)
        cases op with
        | answered outcome =>
          cases outcome with
          | offered offer rider => exact hlive hok
          | _ => exact absurd hl (hok r o)
        | _ => cases hans
    | answered answer =>
      cases answer with
      | outcome outcome =>
        cases outcome with
        | offered offer rider => exact hlive h
        | _ => exact absurd hl (h r o)
      | done => exact absurd hl (h r o)
    | refused => cases h
  | awaitAccept offer rider => exact hlive h
  | expireOffer offer rider => exact hlive h.live
  | cancelDispatch => exact hfree (h.freeable rfl)
  | cancelled => exact hfree (h.freeable rfl)
  | _ => exact absurd hl (h r o)

/-- A lock of an order is taken for a workflow that is at FIND_AND_OFFER. -/
theorem step_locked {d : OrderId} {r : RiderId} {o : OfferId} (hok : Accounted cap s l)
    (hs : step cap s l = some u) (hl : u.world.dispatch.tables.Locked r o d) :
    s.world.dispatch.tables.Locked r o d ∨ (s.insts d).pos.pc = .findAndOffer := by
  rcases step_dispatch hs with he | ⟨e, he, hrun⟩
  · rw [he] at hl
    exact .inl hl
  · by_cases hne : ∀ pid fresh, e ≠ .run pid fresh
    · exact .inl ((undisturbed_step he hne).1.kept r o hl)
    · push Not at hne
      obtain ⟨pid, fresh, rfl⟩ := hne
      obtain ⟨op, op', hc⟩ := storeCall_of_step he
      rcases hrun with ⟨c, hc'⟩ | rfl
      · cases hc'
      · rcases opStep_locked hc.made hl with hold | ⟨-, -, hop'⟩
        · exact .inl hold
        · obtain ⟨⟨cs, rfl⟩, -, hsome⟩ := opStep_puts hc.made hop'
          have hseen : SeenCall cap s pid fresh _ := hok _ hc.at_pid
          exact .inr (hseen hsome).1

/-- How a workflow ends as cancelled. -/
theorem cancelled_step {d : OrderId} (hs : step cap s l = some u)
    (hpc : (u.insts d).pos.pc = .cancelled) :
    (s.insts d).pos.pc = .cancelled ∨
      l = .flow d .report ∧ (s.insts d).pos.pc = .cancelDispatch ∧ u.world = s.world ∧
        ((∃ answer, (s.insts d).attempt = .answered answer) ∨ (s.insts d).attempt = .refused) := by
  rcases step_cases hs with ⟨e, m, w', i', rfl, -, hm, rfl⟩ | ⟨e, w', -, -, -, rfl⟩ |
    ⟨e, -, -, rfl⟩
  · replace hpc : (Function.update s.insts e i' d).pos.pc = .cancelled := hpc
    by_cases hed : d = e
    · subst hed
      rw [Function.update_self] at hpc
      rcases move_cases hm with ⟨-, -, -, t, -, -, -, -, rfl⟩ | ⟨rfl, hrest⟩
      · exact .inl hpc
      · rcases hrest with ⟨-, -, rfl⟩ | ⟨a, answer, rfl, ha, ht, rfl⟩ | ⟨a, rfl, ha, ht, rfl⟩ |
          ⟨-, -, -, hbound, -⟩ | ⟨n, -, rfl⟩ | ⟨e, pos, -, he, rfl⟩
        · exact .inl hpc
        · have hact : Delivery.activity (s.insts d).pos ≠ none := fun h => by
            cases h.symm.trans ha
          exact .inr ⟨rfl, afterAnswer_cancelled hact hpc, rfl, .inl ⟨answer, ht⟩⟩
        · exact .inr ⟨rfl, afterFailure_cancelled hpc, rfl, .inr ht⟩
        · cases hbound
        · exact .inl ((note_pc _ n).symm.trans hpc)
        · exact absurd hpc (afterWait_cancelled he)
    · rw [Function.update_of_ne hed] at hpc
      exact .inl hpc
  · exact .inl hpc
  · exact .inl hpc

/-- After a clean-up that came to its end nobody is locked. -/
theorem cancelled_noLock {is : List Label}
    (h : Run (step cap) (fun s l => Accounted cap s l ∧ CleanedUp s l) .empty is s) (d : OrderId)
    (hpc : (s.insts d).pos.pc = .cancelled) : NoLock s.world.dispatch d := by
  induction h with
  | nil => cases hpc
  | @snoc is t u l hrun hok hs ih =>
    rcases cancelled_step hs hpc with hold | ⟨rfl, hcd, hworld, hanswer⟩
    · intro r o hl
      rcases step_locked hok.1 hs hl with hlt | hf
      · exact ih hold r o hlt
      · rw [hold] at hf
        cases hf
    · have hoffers := ((inv_of_run (fun _ _ h => h.1) hrun).order d).offers
      rw [hcd] at hoffers
      rcases hanswer with ⟨answer, ha⟩ | ha
      · rw [ha] at hoffers
        intro r o hl
        rw [hworld] at hl
        obtain ⟨seen, hmem, -⟩ := hoffers.1 r o hl
        exact hok.2 hcd _ hmem rfl
      · rw [ha] at hoffers
        cases hoffers

/-- **No orphaned offer lock.**  In every run in which no offer gets lost and every
clean-up has released its rider: whenever no call is in flight a lock has its OFFERING
row, and a workflow that has ended leaves no lock of its order. -/
theorem no_orphaned_lock {is : List Label}
    (h : Run (step cap) (fun s l => Accounted cap s l ∧ CleanedUp s l) .empty is s) :
    (Quiet s.world.dispatch → ∀ rider offer d, s.world.dispatch.tables.Locked rider offer d →
      s.world.dispatch.tables.deliveries d = some ⟨.offering, rider, offer⟩) ∧
    ∀ d, (s.insts d).pos.pc.closed = true →
      ∀ rider offer, ¬ s.world.dispatch.tables.Locked rider offer d := by
  have hi := inv_of_run (fun _ _ h => h.1) h
  refine ⟨fun hq rider offer d hl => (hi.order d).offers.matched hq hl, fun d hclosed => ?_⟩
  have hoffers := (hi.order d).offers
  cases hpc : (s.insts d).pos.pc with
  | cancelled => exact cancelled_noLock h d hpc
  | returned result =>
    rw [hpc] at hoffers
    exact hoffers
  | failed =>
    rw [hpc] at hoffers
    exact hoffers
  | _ =>
    rw [hpc] at hclosed
    cases hclosed

end

/-! ### Runs -/

/-- An activity sends its request. -/
def send (d : OrderId) (candidates : List RiderId) : List Label :=
  [.flow d (.work ⟨candidates, true⟩)]

/-- It reads the answer, which becomes its result. -/
def receive (d : OrderId) : List Label := [.flow d (.work ⟨[], true⟩), .flow d .report]

/-- The store calls of an execution, with the ids they may mint. -/
def calls (pid : ℕ) (mints : List OfferId) : List Label :=
  mints.map fun fresh => .env (.dispatch (.run pid fresh))

/-- Two riders are online, and the food of the order is ready. -/
def upToCascade (d : OrderId) : List Label :=
  [.env (.dispatch (.online "r1")), .env (.dispatch (.online "r2")),
    .flow d (.signal (.signal .foodReady)), .flow d (.event .wake)]

/-- The order is offered to the first rider. -/
def firstOffer (d : OrderId) : List Label :=
  upToCascade d ++ send d ["r1", "r2"] ++ calls 0 ["o1", ""]

theorem no_orphaned_lock_offered : ∃ s,
    Run (step 2) (fun s l => Accounted 2 s l ∧ CleanedUp s l) .empty (firstOffer "d") s ∧
      s.world.dispatch.tables.Locked "r1" "o1" "d" ∧
      s.world.dispatch.tables.deliveries "d" = some ⟨.offering, "r1", "o1"⟩ := by
  obtain ⟨s, hs, hp⟩ : ∃ s,
      Run (step 2) (fun s l => Accounted 2 s l ∧ CleanedUp s l) .empty (firstOffer "d") s ∧
        decide (Quiet s.world.dispatch ∧ s.world.dispatch.tables.Locked "r1" "o1" "d") = true :=
    exists_run_of_execOk (by decide)
  obtain ⟨hq, hl⟩ := of_decide_eq_true hp
  exact ⟨s, hs, hl, (no_orphaned_lock hs).1 hq "r1" "o1" "d" hl⟩

/-- The answer is lost, and the order is offered again, to the second rider, who brings
it. -/
def lostOffer (d : OrderId) : List Label :=
  firstOffer d ++ [.flow d .lose] ++ send d ["r1", "r2"] ++ calls 1 ["o2", "o2", ""] ++
    receive d ++
    [.env (.dispatch (.start (.acceptOffer "r2" "o2" d)))] ++ calls 2 ["", ""] ++
    [.flow d (.event .timeout)] ++ send d [] ++ calls 3 ["", ""] ++ receive d ++ receive d ++
    [.env (.dispatch (.start (.pickedUp "r2" d)))] ++ calls 4 [""] ++
    [.flow d (.signal (.signal (.courierPickedUp "r2"))), .flow d (.event .wake)] ++ receive d ++
    [.env (.dispatch (.start (.delivered "r2" d)))] ++ calls 5 ["", ""] ++
    [.flow d (.signal (.signal (.courierDelivered "r2"))), .flow d (.event .wake)] ++ receive d

/-- **One lost answer**: the order is delivered and no call is in flight, and the first
rider is still locked for it. -/
theorem orphaned_lock : ∃ s, Run (step 2) Always .empty (lostOffer "d") s ∧
    Quiet s.world.dispatch ∧ (s.insts "d").pos.pc = .returned .delivered ∧
    s.world.dispatch.tables.Locked "r1" "o1" "d" ∧
    s.world.dispatch.tables.deliveries "d" = some ⟨.delivered, "r2", "o2"⟩ := by
  obtain ⟨s, hs, hp⟩ : ∃ s, Run (step 2) Always .empty (lostOffer "d") s ∧
      decide (Quiet s.world.dispatch ∧ (s.insts "d").pos.pc = .returned .delivered ∧
        s.world.dispatch.tables.Locked "r1" "o1" "d" ∧
        s.world.dispatch.tables.deliveries "d" = some ⟨.delivered, "r2", "o2"⟩) = true :=
    exists_run_of_execOk (by decide)
  exact ⟨s, hs, of_decide_eq_true hp⟩

end Cascade

end Order
