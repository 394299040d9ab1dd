/-
Settled means consumed, unless the reaper was there first.

The reservation is taken before VALIDATED and consumed by `settle_order`, which does
not look at what the commit answered.  In between the order waits for the kitchen and
the courier without a bound, and the reaper releases what is older than its TTL.

* `Kept.own`, `Kept.env` — while the reaper leaves the reservation alone, the saga
  and its environment keep it, in its slot, until it is committed;
* `settled_consumed` — hence a settled order has consumed its reservation;
* `settled_after_expiry` — a reaper pass during the delivery, and the order settles on
  a reservation that went back to stock.
-/
import SmartFoodOps.Order.Coherence

open Machine Durable
open Dispatch (OrderId)

namespace Order

namespace Saga

open Workflow
open Inventory (ReservationStatus)

/-- From VALIDATED to DELIVERED. -/
def Reserved (st : Option OrderStatus) : Prop :=
  st = some .validated ∨ st = some .paymentCleared ∨ st = some .confirmed ∨ Live st

/-- The settlement has begun. -/
def Settling (pc : Pc) : Prop := pc = .settleOrder ∨ pc = .returned .settled ∨ pc = .failed

/-- The reservation is kept until it is committed. -/
structure Kept (pc : Pc) (t : Attempt Phase Answer) (v : View) : Prop where
  fits : Fits pc t v.status
  alive : v.status ≠ some .cancelling → v.status ≠ some .cancelled → v.returned = false
  held : Reserved v.status → v.reservation = some .active ∨ v.reservation = some .consumed
  settled : v.status = some .settled → v.reservation = some .consumed
  placed : pc = .createOrder ∨ pc = .forward .placed →
    v.reservation = none ∨ v.reservation = some .active
  reserving : pc = .forward .placed → t = .working .second ∨ t = .answered .ok →
    v.reservation = some .active
  committed : pc = .settleOrder → t = .working .second → v.reservation = some .consumed
  consumed : v.reservation = some .consumed → Settling pc

section

variable {cfg : Config} {pc pc' : Pc} {t t' : Attempt Phase Answer} {v v' : View} {phase : Phase}

theorem live_reserved {st : Option OrderStatus} (h : Live st) : Reserved st := .inr (.inr (.inr h))

/-- While the view stays, only what is said about the attempt has to be kept. -/
theorem Kept.same_view (h : Kept pc t v) (hf : Fits pc' t' v.status)
    (hplaced : pc' = .createOrder ∨ pc' = .forward .placed → pc = .createOrder ∨ pc = .forward .placed)
    (hres : pc' = .forward .placed → t' = .working .second ∨ t' = .answered .ok →
      v.reservation = some .active)
    (hcom : pc' = .settleOrder → t' = .working .second → v.reservation = some .consumed)
    (hset : Settling pc → Settling pc') : Kept pc' t' v :=
  ⟨hf, h.alive, h.held, h.settled, fun hp => h.placed (hplaced hp), hres, hcom,
    fun hc => hset (h.consumed hc)⟩

/-- At the settlement the reservation is there. -/
theorem Kept.at_settlement (h : Kept .settleOrder t v) :
    v.reservation = some .active ∨ v.reservation = some .consumed := by
  rcases h.fits.1 with hlive | hset
  · exact h.held (live_reserved hlive)
  · exact .inr (h.settled hset)

/-- A move of the row within or out of the reserved statuses. -/
theorem Kept.moved {expected target : OrderStatus} {answer : Answer} (h : Kept pc t v)
    (hm : Moves expected target answer v v' t') (hf : Fits pc t' v'.status)
    (hheld : Reserved (some target) → v.reservation = some .active ∨ v.reservation = some .consumed)
    (hsettled : target = .settled → v.reservation = some .consumed)
    (halive : target ≠ .cancelling → target ≠ .cancelled → v.returned = false)
    (hres : pc = .forward .placed → t' = .answered .ok → v.reservation = some .active) :
    Kept pc t' v' := by
  rcases hm with ⟨-, rfl, rfl⟩ | ⟨-, -, rfl, rfl⟩
  · refine ⟨hf, ?_, hheld, ?_, h.placed, ?_, nofun, h.consumed⟩
    · exact fun h1 h2 => halive (fun he => h1 (congrArg some he)) fun he => h2 (congrArg some he)
    · exact fun hs => hsettled (Option.some.inj hs)
    · exact fun hp ht => hres hp (ht.resolve_left nofun)
  · exact h.same_view hf id nofun nofun id

/-- One step of an attempt keeps the reservation. -/
theorem Kept.work {activity : Activity} (h : Kept pc (.working phase) v)
    (ha : Workflow.activity pc = some activity) (hs : Spec activity phase v v' t) : Kept pc t v' := by
  have hfits := h.fits.work ha hs
  have hnot : ∀ {st : Option OrderStatus}, v.status = st → st ≠ some .cancelling →
      st ≠ some .cancelled → v.returned = false := fun he h1 h2 => h.alive (he ▸ h1) (he ▸ h2)
  cases pc with
  | createOrder =>
    cases ha
    cases phase with
    | second => exact hs.elim
    | first =>
      obtain ⟨rfl, rfl⟩ := hs
      have hst : v.status.or (some .placed) = some .placed := by
        rcases h.fits.1 with he | he <;> simp [he]
      have hret : v.returned = false := by
        rcases h.fits.1 with he | he <;> exact hnot he (by rintro ⟨⟩) (by rintro ⟨⟩)
      refine ⟨hfits, fun _ _ => hret, ?_, ?_, h.placed, (by rintro ⟨⟩), (by rintro ⟨⟩), h.consumed⟩
      · simp [hst, Reserved, Live]
      · simp [hst]
  | forward stage =>
    cases ha
    have hret : v.returned = false := by
      rcases h.fits.1 with he | he <;> cases stage <;> exact hnot he (by rintro ⟨⟩) (by rintro ⟨⟩)
    -- past PLACED the row is reserved before the move and after it
    have hlater : ∀ expected target answer, stage ≠ .placed → Moves expected target answer v v' t →
        target ≠ .settled → Kept (.forward stage) t v' := by
      intro expected target answer hne hm htarget
      have hres : Reserved v.status := by
        rcases h.fits.1 with he | he <;> rw [he] <;> cases stage <;>
          simp [Reserved, Stage.status, next] at hne ⊢
      exact h.moved hm hfits (fun _ => h.held hres) (fun he => absurd he htarget)
        (fun _ _ => hret) (fun he => absurd (Pc.forward.inj he) hne)
    have hsame : ∀ t', Fits (.forward stage) t' v.status →
        (stage = .placed → t' ≠ .working .second ∧ t' ≠ .answered .ok) →
        Kept (.forward stage) t' v := by
      intro t' hf hne
      refine h.same_view hf id (fun hp ht => ?_) (by rintro ⟨⟩) id
      obtain ⟨h1, h2⟩ := hne (Pc.forward.inj hp)
      exact absurd ht (not_or_intro h1 h2)
    cases stage <;> cases phase
    · rcases hs with ⟨rfl, rfl⟩ | ⟨rfl, -, rfl | rfl⟩
      · have hact : some (v.reservation.getD .active) = some ReservationStatus.active := by
          rcases h.placed (.inr rfl) with he | he <;> simp [he]
        have hnset : v.status ≠ some .settled := by
          rcases h.fits.1 with he | he <;> rw [he] <;> rintro ⟨⟩
        exact ⟨hfits, fun _ _ => hret, fun _ => .inl hact, fun he => absurd he hnset,
          fun _ => .inr hact, fun _ _ => hact, (by rintro ⟨⟩), fun hc => by rw [hact] at hc; cases hc⟩
      · exact hsame _ hfits fun _ => ⟨(by rintro ⟨⟩), (by rintro ⟨⟩)⟩
      · exact hsame _ hfits fun _ => ⟨(by rintro ⟨⟩), (by rintro ⟨⟩)⟩
    · have hact := h.reserving rfl (.inl rfl)
      exact h.moved hs hfits (fun _ => .inl hact) (by rintro ⟨⟩) (fun _ _ => hret) (fun _ _ => hact)
    · obtain ⟨rfl, -⟩ := hs
      exact hsame _ hfits (by rintro ⟨⟩)
    · exact hlater _ _ _ (by rintro ⟨⟩) hs (by rintro ⟨⟩)
    · exact hlater _ _ _ (by rintro ⟨⟩) hs (by rintro ⟨⟩)
    · exact hs.elim
  | beginCancel expected reason void release =>
    cases ha
    cases phase with
    | second => exact hs.elim
    | first =>
      exact h.moved hs hfits (by simp [Reserved, Live]) (by rintro ⟨⟩) (fun he => absurd rfl he) (by rintro ⟨⟩)
  | voidAuthorization reason release =>
    cases ha
    cases phase with
    | second => exact hs.elim
    | first =>
      obtain ⟨rfl, -⟩ := hs
      exact ⟨hfits, h.alive, h.held, h.settled, h.placed, (by rintro ⟨⟩), (by rintro ⟨⟩), h.consumed⟩
  | releaseReservation reason =>
    cases ha
    cases phase with
    | second => exact hs.elim
    | first =>
      obtain ⟨rfl, -⟩ := hs
      have hst : v.status = some .cancelling := h.fits
      have hst' : (finished .released true v).status = some .cancelling := hfits
      refine ⟨hfits, fun hne => absurd hst' hne, ?_, ?_, (by simp), (by simp), (by simp), ?_⟩
      · simp [hst', Reserved, Live]
      · simp [hst']
      · intro hcon
        by_cases hact : v.reservation = some .active
        · simp [finished, hact] at hcon
        · exact h.consumed (by simpa [finished, hact] using hcon)
  | finishCancel reason =>
    cases ha
    cases phase with
    | second => exact hs.elim
    | first =>
      exact h.moved hs hfits (by simp [Reserved, Live]) (by rintro ⟨⟩) (fun _ he => absurd rfl he) (by rintro ⟨⟩)
  | markAccepted =>
    cases ha
    cases phase with
    | second => exact hs.elim
    | first =>
      have hres : Reserved v.status := by
        rcases h.fits.1 with he | he
        · exact .inr (.inr (.inl he))
        · exact live_reserved he
      have hret : v.returned = false := by
        refine h.alive (fun he => ?_) fun he => ?_ <;> rw [he] at hres <;>
          simp [Reserved, Live] at hres
      exact h.moved hs hfits (fun _ => h.held hres) (by rintro ⟨⟩) (fun _ _ => hret) (by rintro ⟨⟩)
  | customerCancel | noRiderCancel =>
    cases ha
    cases phase with
    | second => exact hs.elim
    | first =>
      rcases hs with ⟨-, rfl, rfl⟩ | ⟨-, rfl, rfl⟩
      · refine ⟨hfits, fun hne => absurd rfl hne, ?_, (by simp), (by simp), (by simp), (by simp), h.consumed⟩
        simp [Reserved, Live]
      · exact h.same_view hfits (by simp) (by simp) (by simp) id
  | cancelDispatch =>
    cases ha
    cases phase with
    | second => exact hs.elim
    | first =>
      obtain ⟨rfl, rfl⟩ := hs
      exact h.same_view hfits (by simp) (by simp) (by simp) id
  | capturePayment =>
    cases ha
    cases phase with
    | second => exact hs.elim
    | first =>
      obtain ⟨rfl, -⟩ := hs
      exact h.same_view hfits (by simp) (by simp) (by simp) id
  | settleOrder =>
    cases ha
    have hret : v.returned = false := by
      refine h.alive (fun he => ?_) fun he => ?_ <;>
        rcases h.fits.1 with hl | hl <;> rw [he] at hl <;> simp [Live] at hl
    cases phase with
    | first =>
      obtain ⟨rfl, rfl⟩ := hs
      -- the commit finds the reservation active, or consumed by an earlier attempt
      have hcon : (finished .consumed false v).reservation = some .consumed := by
        rcases h.at_settlement with he | he <;> simp [finished, he]
      have hret' : (finished .consumed false v).returned = false := by
        rcases h.at_settlement with he | he <;> simp [finished, he, hret]
      exact ⟨hfits, fun _ _ => hret', fun _ => .inr hcon, fun _ => hcon, (by simp), (by simp),
        fun _ _ => hcon, fun _ => .inl rfl⟩
    | second =>
      have hcon := h.committed rfl rfl
      exact h.moved hs hfits (fun _ => .inr hcon) (fun _ => hcon) (fun _ _ => hret) (by rintro ⟨⟩)
  | awaitDecision => cases ha
  | startChild => cases ha
  | awaitDelivery => cases ha
  | drainChild => cases ha
  | awaitChild => cases ha
  | returned result => cases ha
  | failed => cases ha

/-- No await leads back to the reservation. -/
theorem afterAnswer_early {answer : Answer} (ha : Workflow.activity pc ≠ none)
    (h : afterAnswer pc answer = .createOrder ∨ afterAnswer pc answer = .forward .placed) :
    pc = .createOrder := by
  have hleads := leads answer ha
  generalize afterAnswer pc answer = next at h hleads
  cases hleads <;> simp at h
  rfl

/-- The awaits that the flow goes on to from a given one, but for its own steps. -/
theorem settling_afterAnswer {answer : Answer} (h : Settling pc) :
    Settling (afterAnswer pc answer) := by
  rcases h with rfl | rfl | rfl
  · exact .inr (.inl rfl)
  · exact .inr (.inl rfl)
  · exact .inr (.inr rfl)

theorem not_reserving_first :
    ¬ ((.working .first : Attempt Phase Answer) = .working .second ∨
      (.working .first : Attempt Phase Answer) = .answered .ok) := by
  simp

/-- Entering an await keeps the reservation, if it is not the first one again. -/
theorem Kept.enter (h : Kept pc t v) (hf : Fits pc' (.working .first) v.status)
    (hplaced : pc' = .createOrder ∨ pc' = .forward .placed →
      pc = .createOrder ∨ pc = .forward .placed)
    (hset : Settling pc → Settling pc') : Kept pc' (.working .first) v :=
  h.same_view hf hplaced (fun _ ht => absurd ht not_reserving_first) nofun hset

theorem Kept.event {p p' : Pos} {e : Event} (h : Kept p.pc t v) (he : afterWait p e = some p') :
    Kept p'.pc (.working .first) v := by
  have hwait : ¬ Settling p.pc ∧ ¬ (p'.pc = .createOrder ∨ p'.pc = .forward .placed) := by
    cases (ends he).1 with
    | @child how hpc _ hnext =>
      rw [hnext]
      rcases hpc with hpc | hpc <;> cases how <;> simp [hpc, Settling, afterChild]
    | _ => simp [*, Settling]
  exact h.enter (h.fits.event he) (fun hp => absurd hp hwait.2) fun hs => absurd hs hwait.1

/-- **One move of the workflow** keeps the reservation. -/
theorem Kept.own {order : OrderId} {w w' : World} {i i' : Inst Pos Phase Answer}
    {m : Move Input Signal Event} (h : Kept i.pos.pc i.attempt (view order w))
    (hm : move flow (worker cfg) order w i m = some (w', i')) :
    Kept i'.pos.pc i'.attempt (view order w') := by
  rcases move_cases hm with ⟨input, a, phase, attempt, -, ha, hp, hw, rfl⟩ | ⟨rfl, hrest⟩
  · rw [hp] at h
    exact h.work ha (work_spec hw)
  · rcases hrest with ⟨-, -, rfl⟩ | ⟨a, answer, -, ha, hr, rfl⟩ | ⟨a, -, -, -, rfl⟩ |
      ⟨a, -, -, hb, rfl⟩ | ⟨s, -, rfl⟩ | ⟨e, pos, -, he, rfl⟩
    · exact h.enter h.fits.restart id id
    · have hne : Workflow.activity i.pos.pc ≠ none := by
        rw [show Workflow.activity i.pos.pc = some a from ha]
        simp
      rw [hr] at h
      exact h.enter (h.fits.report hne) (fun hp => .inl (afterAnswer_early hne hp))
        settling_afterAnswer
    · exact h.enter trivial (by rintro (⟨⟨⟩⟩ | ⟨⟨⟩⟩)) fun _ => .inr (.inr rfl)
    · obtain ⟨stage, hpc, hf⟩ := Fits.expire hb
      have hexp : (flow.expired i.pos).pc = afterDeadline stage := by simp [flow, hpc]
      show Kept (flow.expired i.pos).pc _ _
      rw [hexp]
      refine h.enter hf (by cases stage <;> simp [afterDeadline]) fun hs => ?_
      rw [hpc] at hs
      simp [Settling] at hs
    · simpa [flow] using h
    · exact h.event he

/-- A move of the kitchen or of the delivery keeps the reservation. -/
theorem Kept.other (m : OtherMove) (h : Kept pc t v) (hst : v.status = some m.expected) :
    Kept pc t { v with status := some m.target } := by
  have hlive : Live v.status := by
    rw [hst]
    cases m <;> simp [Live, OtherMove.expected]
  have hret : v.returned = false := by
    refine h.alive (fun he => ?_) fun he => ?_ <;> rw [he] at hlive <;> simp [Live] at hlive
  refine ⟨h.fits.other m hst, fun _ _ => hret, fun _ => h.held (live_reserved hlive), ?_, h.placed,
    h.reserving, h.committed, h.consumed⟩
  intro hset
  cases m <;> cases hset

end

/-! ### The property -/

/-- A step in which the reaper does not release the order's active reservation. -/
def Unreaped (order : OrderId) (s : System) (l : SagaLabel) : Prop :=
  ¬ (l = .env .expireOne ∧ s.world.overdue.head? = some order ∧
    (view order s.world).reservation = some .active)

instance (order : OrderId) (s : System) (l : SagaLabel) : Decidable (Unreaped order s l) :=
  inferInstanceAs (Decidable (¬ (_ ∧ _ ∧ _)))

/-- What settling promises about the reservation. -/
structure SettledConsumed (s : System) (order : OrderId) : Prop where
  settled : (view order s.world).status = some .settled →
    (view order s.world).reservation = some .consumed ∧ (view order s.world).returned = false
  /-- From VALIDATED on the order holds its slot, until the settlement commits it. -/
  held : Reserved (view order s.world).status →
    (∃ restaurant, Inventory.HoldsSlot s.world.inventory order restaurant) ∨
    ((view order s.world).reservation = some .consumed ∧ Settling (s.insts order).pos.pc)
  /-- And the slots that are held are counted. -/
  counted : Inventory.Counted s.world.inventory

theorem holdsSlot_of_active {order : OrderId} {w : World}
    (h : (view order w).reservation = some .active) :
    ∃ restaurant, Inventory.HoldsSlot w.inventory order restaurant := by
  obtain ⟨r, hr, hs⟩ := Option.map_eq_some_iff.mp h
  exact ⟨r.restaurantId, r, hr, hs, rfl⟩

/-- A move of the row is not about the inventory. -/
theorem moveRow_inventory (w : World) (order : OrderId) (expected target : OrderStatus)
    (event : Option EventType) (reason : Option CancelReason) (now : ℕ) (answer : Answer) :
    (moveRow w order expected target event reason now answer).1.inventory = w.inventory := by
  unfold moveRow
  split <;> rfl

theorem counted_moveRow {w w' : World} {order : OrderId} {expected target : OrderStatus}
    {event : Option EventType} {reason : Option CancelReason} {now : ℕ} {answer : Answer}
    {t : Attempt Phase Answer} (hc : Inventory.Counted w.inventory)
    (h : some (moveRow w order expected target event reason now answer) = some (w', t)) :
    Inventory.Counted w'.inventory := by
  have hw := moveRow_inventory w order expected target event reason now answer
  rw [Option.some.inj h] at hw
  rw [show w'.inventory = w.inventory from hw]
  exact hc

theorem counted_work {cfg : Config} {order : OrderId} {activity : Activity} {phase : Phase}
    {input : Input} {w w' : World} {t : Attempt Phase Answer}
    (hc : Inventory.Counted w.inventory)
    (h : work cfg order activity phase input w = some (w', t)) :
    Inventory.Counted w'.inventory := by
  unfold work at h
  split at h
  · cases h
    unfold createOrder
    split <;> exact hc
  · have h := Option.some.inj h
    unfold reserve at h
    split at h
    · next db created hok => cases h; exact hc.reserve hok
    · cases h; exact hc
    · cases h; exact hc
  · exact counted_moveRow hc h
  · cases h; exact hc
  · exact counted_moveRow hc h
  · exact counted_moveRow hc h
  · exact counted_moveRow hc h
  · exact counted_moveRow hc h
  · cases h; exact hc
  · cases h; exact hc
  · cases h; exact hc.release
  · exact counted_moveRow hc h
  · cases h; exact hc
  · cases h; exact hc
  · cases h; exact hc.commit
  · exact counted_moveRow hc h
  · cases h

theorem counted_environment {cfg : Config} {e : EnvEvent} {w w' : World}
    (hc : Inventory.Counted w.inventory) (h : environment cfg e w = some w') :
    Inventory.Counted w'.inventory := by
  cases e with
  | otherMove order m now =>
    cases h
    rw [moveRow_inventory]
    exact hc
  | recordRider order rider => cases h; exact hc
  | selectOverdue now orders =>
    simp only [environment] at h
    split at h
    · cases h; exact hc
    · cases h
  | expireOne =>
    simp only [environment] at h
    split at h
    · cases h
    · cases h; exact hc.release
  | setStock restaurant item available => cases h; exact hc.setStock
  | setCapacity restaurant capacity => cases h; exact hc.setCapacity
  | provision restaurant items => cases h; exact hc.provision

/-- In every reachable state the slots in use are those of the active reservations. -/
theorem counted_of_run {cfg : Config} {ok : System → SagaLabel → Prop} {is : List SagaLabel}
    {s : System} (h : Run (step cfg) ok .empty is s) : Inventory.Counted s.world.inventory := by
  refine Run.invariant (I := fun s : System => Inventory.Counted s.world.inventory)
    Inventory.counted_empty ?_ h
  intro s l u hc _ hs
  cases l with
  | flow order m =>
    obtain ⟨⟨w', i'⟩, hm, rfl⟩ := Option.map_eq_some_iff.mp hs
    rcases move_cases hm with ⟨input, a, phase, attempt, -, -, -, hw, -⟩ | ⟨rfl, -⟩
    · exact counted_work hc hw
    · exact hc
  | env e =>
    obtain ⟨w', he, rfl⟩ := Option.map_eq_some_iff.mp hs
    exact counted_environment hc he

/-- **In a run in which the reaper leaves the order's active reservation alone**, a
settled order has consumed its reservation, nothing of it went back to stock, and
its slot was held from VALIDATED until the commit. -/
theorem settled_consumed {cfg : Config} {order : OrderId} {is : List SagaLabel} {s : System}
    (h : Run (step cfg) (Unreaped order) .empty is s) : SettledConsumed s order := by
  have h0 : Kept .createOrder (.working .first) (view order World.empty) :=
    ⟨⟨.inl rfl, by rintro _ ⟨⟩⟩, fun _ _ => rfl, by simp [Reserved, Live, view, World.empty],
      by rintro ⟨⟩, fun _ => .inl rfl, by rintro ⟨⟩, by rintro ⟨⟩, by rintro ⟨⟩⟩
  have hkept : Kept (s.insts order).pos.pc (s.insts order).attempt (view order s.world) := by
    refine family_invariant order (view order)
      (fun v (i : Inst Pos Phase Answer) => Kept i.pos.pc i.attempt v)
      (fun j a phase input w w' attempt hj hw => work_frame hw (Ne.symm hj))
      (fun t m w' i' hI _ hm => hI.own hm) (fun t e w' hI hok he => ?_) h0 h
    rcases environment_spec order he with hv | ⟨m, now, -, hst, hv⟩ | ⟨rest, rfl, hover, hv⟩
    · rw [hv]; exact hI
    · rw [hv]; exact hI.other m hst
    · -- the reaper finds nothing active
      have hact : (view order t.world).reservation ≠ some .active := fun hact =>
        hok ⟨rfl, by rw [hover]; rfl, hact⟩
      rw [hv, finished, if_neg hact]
      exact hI
  refine ⟨fun hs => ⟨hkept.settled hs, hkept.alive ?_ ?_⟩, fun hr => ?_, counted_of_run h⟩
  · rw [hs]; simp
  · rw [hs]; simp
  · rcases hkept.held hr with hact | hcon
    · exact .inl (holdsSlot_of_active hact)
    · exact .inr ⟨hcon, hkept.consumed hcon⟩

/-! ### Runs -/

/-- The steps of an activity that is answered at once, with one remote call or two. -/
def once (order : OrderId) : List SagaLabel := [.flow order (.work ⟨0, .ok⟩), .flow order .report]

def twice (order : OrderId) : List SagaLabel := .flow order (.work ⟨0, .ok⟩) :: once order

/-- An order up to the pickup. -/
def upToPickup (order : OrderId) : List SagaLabel :=
  [.env (.setStock "r" "i" 5)] ++ once order ++ twice order ++ twice order ++ once order ++
    [.flow order (.signal (.restaurantDecision .accept)), .flow order (.event .wake),
      .flow order (.event .childStarted)] ++ once order ++
    [.env (.otherMove order .preparing 0), .env (.otherMove order .ready 0),
      .env (.otherMove order .pickedUp 0)]

/-- And from the delivery on. -/
def fromDelivery (order : OrderId) : List SagaLabel :=
  [.env (.otherMove order .delivered 0), .flow order (.signal (.childEnded .delivered)),
    .flow order (.event .wake)] ++ once order ++ twice order

def oneCart : Config where
  cart _ := ⟨"h", "r", [⟨"i", 2⟩], 700, "EUR", "tok"⟩

/-- Another order has reserved its items at 0 and got no further; this one reserves at 500, and a
reaper pass at 1801 expires the other one's reservation. -/
def besideReaper : List SagaLabel :=
  [.env (.setStock "r" "i" 5)] ++ once "p" ++ twice "p" ++ once "o" ++
    [.flow "o" (.work ⟨500, .ok⟩), .flow "o" (.work ⟨500, .ok⟩), .flow "o" .report] ++
    (upToPickup "o").drop 6 ++ [.env (.selectOverdue 1801 ["p"]), .env .expireOne] ++
    fromDelivery "o"

theorem settled_consumed_besideReaper : ∃ s,
    Run (step oneCart) (Unreaped "o") .empty besideReaper s ∧
      (view "o" s.world).status = some .settled ∧
      (view "p" s.world).reservation = some .expired ∧ SettledConsumed s "o" := by
  obtain ⟨s, hs, hp⟩ : ∃ s, Run (step oneCart) (Unreaped "o") .empty besideReaper s ∧
      decide ((view "o" s.world).status = some .settled ∧
        (view "p" s.world).reservation = some .expired) = true :=
    exists_run_of_execOk (by decide)
  obtain ⟨hsettled, hexpired⟩ := of_decide_eq_true hp
  exact ⟨s, hs, hsettled, hexpired, settled_consumed hs⟩

/-- **A reaper pass during a long delivery**: the order settles, its reservation has
expired, and its two items are in stock again. -/
theorem settled_after_expiry : ∃ s,
    Run (step oneCart) Always .empty (upToPickup "o" ++
      [.env (.selectOverdue 1801 ["o"]), .env .expireOne] ++ fromDelivery "o") s ∧
    (s.insts "o").pos.pc = .returned .settled ∧
    (view "o" s.world).status = some .settled ∧
    (view "o" s.world).reservation = some .expired ∧ s.world.inventory.stock "r" "i" = some 5 := by
  obtain ⟨s, hs, hp⟩ : ∃ s,
      Run (step oneCart) Always .empty (upToPickup "o" ++
        [.env (.selectOverdue 1801 ["o"]), .env .expireOne] ++ fromDelivery "o") s ∧
      decide ((s.insts "o").pos.pc = .returned .settled ∧
        (view "o" s.world).status = some .settled ∧
        (view "o" s.world).reservation = some .expired ∧
        s.world.inventory.stock "r" "i" = some 5) = true :=
    exists_run_of_execOk (by decide)
  exact ⟨s, hs, of_decide_eq_true hp⟩

end Saga

end Order
