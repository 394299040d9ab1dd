/-
Does a cancelled order strand a rider?

The parents, with the orders table, and the children, with the dispatch service, as one system.
A parent starts its child, hears of its end and may ask for its cancellation; it executes a
CANCEL_DISPATCH of its own for a child that found no rider.

* `written` — a child's mark and its RECORD_RIDER are a transaction on the orders table, whose
  outcome the attempt has;
* `Unstranded` — the order's dispatch was cancelled after its last offer and assignment, and
  nobody is left with it;
* `Clean` — no offer gets lost, no write comes too late, and a child whose parent drains it ends
  by its clean-up, unless there was no offer;
* `ParentOk` — what each await of the parent knows about the delivery;
* `unstranded_of_run` — hence no cancelled order strands a rider;
* `stranded` — a cancel during RECORD_RIDER, which ends the child without a clean-up.
-/
import SmartFoodOps.Order.Cleanup
import SmartFoodOps.Order.Joint

open Machine Durable Dispatch

namespace Order

namespace Strand

open Cascade (Settled Unoffered Free Executed Accounted CleanedUp nextPc)

abbrev ParentMove := Move Saga.Input Workflow.Signal Workflow.Event

abbrev ChildMove := Move Cascade.Input Delivery.News Delivery.Event

structure System where
  saga : Saga.System
  cascade : Cascade.System
  /-- The child of the order has been started. -/
  started : OrderId → Bool
  /-- The request of the attempt at the parent's CANCEL_DISPATCH. -/
  asked : OrderId → Option ℕ

def System.empty : System := ⟨.empty, .empty, fun _ => false, fun _ => none⟩

namespace System

variable (s : System) (d : OrderId)

def parent : Joint.Parent := s.saga.insts d

def child : Inst Delivery.Pos CallPhase Delivery.Answer := s.cascade.insts d

/-- The request of the parent's CANCEL_DISPATCH has an answer. -/
def answered : Bool :=
  match s.asked d with
  | some pid =>
    match s.cascade.world.dispatch.ops[pid]? with
    | some (.answered _) => true
    | _ => false
  | none => false

end System

inductive Label
  | parent (d : OrderId) (m : ParentMove)
  /-- The server starts the child. -/
  | spawn (d : OrderId)
  | child (d : OrderId) (now : ℕ) (m : ChildMove)
  /-- The parent sends the request of its CANCEL_DISPATCH. -/
  | cancelDispatch (d : OrderId)
  /-- The kitchens, the admins and the reaper. -/
  | orders (e : Saga.EnvEvent)
  /-- A rider's tap or presence, or a store call of dispatch. -/
  | dispatch (e : Dispatch.Event)

/-- The parent is told what has become of its child, and its CANCEL_DISPATCH has the answer of
dispatch. -/
def Told (s : System) (d : OrderId) : ParentMove → Prop
  | .signal (.childEnded how) =>
    s.started d = true ∧ Joint.endOf (s.child d).pos.pc = some how
  | .event .childStarted => s.started d = true
  | .work _ => (s.parent d).pos.pc = .cancelDispatch → s.answered d = true
  | _ => True

instance decidableTold (s : System) (d : OrderId) (m : ParentMove) : Decidable (Told s d m) := by
  unfold Told
  split <;> infer_instance

/-- The orders table after a move of the child. -/
def written (s : System) (d : OrderId) (now : ℕ) : ChildMove → Option Saga.World
  | .work input =>
    match Delivery.activity (s.child d).pos with
    | some a =>
      match Joint.childWork d a () ⟨now, .ok⟩ s.saga.world with
      | some (w, t) => if input.ok = decide (t ≠ .refused) then some w else none
      | none => none
    | none => none
  | _ => some s.saga.world

def System.withSaga (s : System) (saga : Saga.System) : System := { s with saga := saga }

def System.withCascade (s : System) (cascade : Cascade.System) : System :=
  { s with cascade := cascade }

def step (cap : ℕ) (cfg : Saga.Config) (s : System) : Label → Option System
  | .parent d m =>
    if Told s d m then
      let asked := if m = .lose then Function.update s.asked d none else s.asked
      (Saga.step cfg s.saga (.flow d m)).map fun saga => { s with saga := saga, asked := asked }
    else none
  | .spawn d =>
    if (s.parent d).pos.pc = .startChild then
      some { s with started := Function.update s.started d true }
    else none
  | .child d now m =>
    if s.started d = true ∧ (m = .event .cancel → Joint.asksCancel (s.parent d).pos.pc = true) then
      (written s d now m).bind fun w =>
        (Cascade.step cap s.cascade (.flow d m)).map fun cascade =>
          { s with saga := { s.saga with world := w }, cascade := cascade }
    else none
  | .cancelDispatch d =>
    if (s.parent d).pos.pc = .cancelDispatch ∧ (s.parent d).attempt = .working .first ∧
        s.asked d = none then
      let asked := Function.update s.asked d (some s.cascade.world.dispatch.ops.length)
      (Cascade.step cap s.cascade (.env (.noRiderCancel d))).map fun cascade =>
        { s with cascade := cascade, asked := asked }
    else none
  | .orders e =>
    if Joint.ofDelivery e then none else (Saga.step cfg s.saga (.env e)).map s.withSaga
  | .dispatch e => (Cascade.step cap s.cascade (.env (.dispatch e))).map s.withCascade

/-! ### No rider is stranded -/

/-- **No rider is stranded.**  `cleaned`: CANCEL_DISPATCH was executed after the last offer and
the last assignment; then no lock, no assignment, and, once no call is in flight, nobody
who carries the order without having picked it up. -/
structure Unstranded (w : Cascade.World) (d : OrderId) : Prop where
  cleaned : Settled w.log d
  unlocked : ∀ rider offer, ¬ w.dispatch.tables.Locked rider offer d
  unassigned : ∀ row, w.dispatch.tables.deliveries d = some row → row.state ≠ .assigned
  inactive : Quiet w.dispatch → ∀ rider, w.dispatch.tables.Active rider d →
    ∃ row, w.dispatch.tables.deliveries d = some row ∧ row.riderId = rider ∧
      row.state = .pickedUp

/-! ### The condition -/

/-- The child is in its clean-up, or has ended. -/
def Leaving (pc : Delivery.Pc) : Prop := pc = .cancelDispatch ∨ pc.closed = true

/-- While a parent drains a child that has made offers, the cancel finds the child suspended in one
of its waits (for the food, for the breather, for an accept, for the pickup, for the delivery) or
leaving, and the child neither returns nor fails by itself. -/
def Drained (s : System) (d : OrderId) (m : ChildMove) : Prop :=
  (s.parent d).pos.pc = .drainChild → Unoffered s.cascade.world.log d ∨
    match m with
    | .event .cancel => (s.child d).pos.pc.waits = true ∨ Leaving (s.child d).pos.pc
    | m => (nextPc (s.child d) m).closed = true → Leaving (s.child d).pos.pc

instance (pc : Delivery.Pc) : Decidable (Leaving pc) := inferInstanceAs (Decidable (_ ∨ _))

instance decidableDrained (s : System) (d : OrderId) (m : ChildMove) : Decidable (Drained s d m) := by
  unfold Drained
  haveI : Decidable (match m with
    | .event .cancel => (s.child d).pos.pc.waits = true ∨ Leaving (s.child d).pos.pc
    | m => (nextPc (s.child d) m).closed = true → Leaving (s.child d).pos.pc) := by
    split <;> infer_instance
  infer_instance

/-- A child that is drained does not end, but by the end of its clean-up. -/
theorem Drained.leaving {s : System} {d : OrderId} {m : ChildMove} (h : Drained s d m)
    (hparent : (s.parent d).pos.pc = .drainChild) (hends : (nextPc (s.child d) m).closed = true) :
    Leaving (s.child d).pos.pc ∨ Unoffered s.cascade.world.log d := by
  rcases h hparent with hnone | hmove
  · exact .inr hnone
  refine .inl ?_
  split at hmove
  · rcases hmove with hwaits | hleaving
    · -- a cancel that finds a wait is followed by the clean-up
      obtain ⟨p, hp⟩ : ∃ p, Delivery.cancel (s.child d).pos = some p := by
        unfold Delivery.cancel
        unfold Delivery.Pc.waits at hwaits
        split at hwaits <;> simp_all
      have hpc := Delivery.cancel_pc hp
      rw [if_pos hwaits] at hpc
      have hafter : Delivery.afterWait (s.child d).pos .cancel = some p := hp
      rw [nextPc, hafter, Option.map_some, Option.getD_some, hpc] at hends
      cases hends
    · exact hleaving
  · exact hmove hends

/-- The customer's cancel does not find the child ended already, unless there was no
offer. -/
def Refereed (s : System) (d : OrderId) : Prop :=
  (s.parent d).pos.pc = .customerCancel → (s.parent d).attempt = .answered .ok →
    (s.child d).pos.pc.closed = true → Unoffered s.cascade.world.log d

instance decidableRefereed (s : System) (d : OrderId) : Decidable (Refereed s d) :=
  inferInstanceAs (Decidable (_ → _ → _ → _))

def Clean (cap : ℕ) (s : System) : Label → Prop
  | .parent d .report => Refereed s d
  | .child d _ m =>
    Accounted cap s.cascade (.flow d m) ∧ CleanedUp s.cascade (.flow d m) ∧ Drained s d m
  | .dispatch e =>
    Accounted cap s.cascade (.env (.dispatch e)) ∧ Sound s.cascade.world.dispatch e
  | _ => True

instance decidableClean (cap : ℕ) (s : System) (l : Label) : Decidable (Clean cap s l) := by
  unfold Clean
  split <;> infer_instance

/-! ### What each await of the parent knows -/

/-- The delivery is over, and nobody is left with the order. -/
structure Over (s : System) (d : OrderId) : Prop where
  free : Free s.cascade.world d
  ended : s.started d = true → (s.child d).pos.pc.closed = true

def ParentOk (s : System) (d : OrderId) (pc : Workflow.Pc)
    (t : Attempt Saga.Phase Workflow.Answer) : Prop :=
  match pc with
  | .createOrder | .forward _ | .awaitDecision => s.started d = false
  | .beginCancel _ _ _ _ | .voidAuthorization _ _ | .releaseReservation _ | .finishCancel _
  | .returned .cancelled => Over s d
  | .drainChild => (s.child d).pos.pc.closed = true → Free s.cascade.world d
  | .noRiderCancel => (s.child d).pos.pc = .returned .noRider
  | .cancelDispatch =>
    (s.child d).pos.pc = .returned .noRider ∧
      ∀ answer, t = .answered answer → Free s.cascade.world d
  | .startChild | .markAccepted | .awaitDelivery | .customerCancel | .awaitChild
  | .capturePayment | .settleOrder | .returned .settled | .failed => True

/-- **The invariant of a run.** -/
structure Inv (s : System) : Prop where
  cascade : Cascade.Inv s.cascade
  recorded : Cascade.Recorded s.cascade.world
  cleaned : ∀ d, Cascade.Cleaned s.cascade.world d (s.child d).pos.pc (s.child d).attempt
  held : AllHeld s.cascade.world.dispatch
  idle : ∀ d, s.started d = false → (s.child d).pos.pc = .awaitFood ∧ Free s.cascade.world d
  /-- What the parent has heard of the child's end is true. -/
  heard : ∀ d how, (s.parent d).pos.child = some how →
    Joint.endOf (s.child d).pos.pc = some how
  asked : ∀ d pid, s.asked d = some pid →
    (s.child d).pos.pc = .returned .noRider ∧ Executed s.cascade.world d pid
  parent : ∀ d, ParentOk s d (s.parent d).pos.pc (s.parent d).attempt

section

variable {cap : ℕ} {cfg : Saga.Config} {s u : System} {l : Label} {d : OrderId}
  {pc : Workflow.Pc} {t : Attempt Saga.Phase Workflow.Answer}

theorem closed_of_endOf {pc : Delivery.Pc} {how : Workflow.ChildEnd}
    (h : Joint.endOf pc = some how) : pc.closed = true := by
  cases pc <;> first | rfl | cases h

theorem noRider_of_endOf {pc : Delivery.Pc} (h : Joint.endOf pc = some .noRider) :
    pc = .returned .noRider := by
  cases pc with
  | returned result => cases result <;> first | rfl | cases h
  | _ => cases h

/-- The parent's own CANCEL_DISPATCH leaves the order free. -/
theorem Inv.free_of_answered (hi : Inv s) (h : s.answered d = true) :
    Free s.cascade.world d := by
  unfold System.answered at h
  split at h
  · next pid hasked =>
    split at h
    · next o hop =>
      obtain ⟨hpc, op, hop', hcan, hset⟩ := hi.asked d pid hasked
      cases hop.symm.trans hop'
      have hoffers := (hi.cascade.order d).offers
      have hpc : (s.cascade.insts d).pos.pc = .returned .noRider := hpc
      rw [hpc] at hoffers
      exact ⟨hset o rfl, hoffers, hcan.2⟩
    · cases h
  · cases h

/-- A child that is not looking for a rider: one that is idle, or that has ended. -/
theorem Over.not_findAndOffer (h : Over s d) (hi : Inv s) :
    (s.child d).pos.pc ≠ .findAndOffer := by
  intro hpc
  cases hst : s.started d with
  | true =>
    have hclosed := h.ended hst
    rw [hpc] at hclosed
    cases hclosed
  | false =>
    have hidle := (hi.idle d hst).1
    rw [hpc] at hidle
    cases hidle

theorem over_of_idle (hi : Inv s) (h : s.started d = false) : Over s d :=
  ⟨(hi.idle d h).2, fun hst => by rw [h] at hst; cases hst⟩

/-! ### A step of the cascades -/

/-- What a step of the cascades does not change for a parent. -/
theorem ParentOk.mono (h : ParentOk s d pc t)
    (hover : Over s d → Over u d) (hstarted : u.started d = s.started d)
    (hdrain : pc = .drainChild → (u.child d).pos.pc.closed = true → Free u.cascade.world d)
    (hclosed : (s.child d).pos.pc.closed = true → (u.child d).pos.pc = (s.child d).pos.pc)
    (hfree : (s.child d).pos.pc.closed = true → Free s.cascade.world d → Free u.cascade.world d) :
    ParentOk u d pc t := by
  have hback : (s.child d).pos.pc = .returned .noRider →
      (u.child d).pos.pc = .returned .noRider := by
    intro hpc
    rw [hclosed (by rw [hpc]; rfl), hpc]
  cases pc with
  | createOrder => exact hstarted.trans h
  | forward stage => exact hstarted.trans h
  | awaitDecision => exact hstarted.trans h
  | beginCancel expected reason void release => exact hover h
  | voidAuthorization reason release => exact hover h
  | releaseReservation reason => exact hover h
  | finishCancel reason => exact hover h
  | returned result =>
    cases result with
    | cancelled => exact hover h
    | settled => trivial
  | drainChild => exact hdrain rfl
  | noRiderCancel => exact hback h
  | cancelDispatch =>
    exact ⟨hback h.1, fun answer ht => hfree (by rw [h.1]; rfl) (h.2 answer ht)⟩
  | _ => trivial

/-- A parent that nothing has happened to. -/
theorem ParentOk.frame (h : ParentOk s d pc t) (hc : u.cascade = s.cascade)
    (hst : u.started d = s.started d) : ParentOk u d pc t := by
  have hchild : u.child d = s.child d := congrArg (fun c => c.insts d) hc
  refine h.mono (fun ho => ⟨hc ▸ ho.free, fun hs => ?_⟩) hst (fun hpc hcl => ?_)
    (fun _ => by rw [hchild]) fun _ hf => hc ▸ hf
  · rw [hchild]
    exact ho.ended (hst.symm.trans hs)
  · subst hpc
    rw [hchild] at hcl
    rw [hc]
    exact h hcl

/-- **A step of the cascades** keeps the invariant. -/
theorem Inv.cascade_step {l : Cascade.Label} {c : Cascade.System} {w : Saga.World} (hi : Inv s)
    (hacc : Accounted cap s.cascade l) (hup : CleanedUp s.cascade l)
    (hsound : ∀ e, l = .env (.dispatch e) → Sound s.cascade.world.dispatch e)
    (hs : Cascade.step cap s.cascade l = some c)
    (hown : ∀ d m, l = .flow d m → s.started d = true ∧ Drained s d m) :
    Inv { s with saga := { s.saga with world := w }, cascade := c } := by
  have hclosed : ∀ d, (s.child d).pos.pc.closed = true → (c.insts d).pos.pc = (s.child d).pos.pc :=
    fun d => Cascade.closed_step hs
  have hfree : ∀ d, (s.child d).pos.pc ≠ .findAndOffer → Free s.cascade.world d →
      Free c.world d := fun d hpc h => h.step hi.cascade hacc hs hpc
  have hfree' : ∀ d, (s.child d).pos.pc.closed = true → Free s.cascade.world d →
      Free c.world d := fun d hpc => hfree d (by rintro hf; rw [hf] at hpc; cases hpc)
  have hrec : Cascade.Recorded c.world := hi.recorded.step hs
  have hci : Cascade.Inv c := hi.cascade.step hacc hs
  refine ⟨hci, hrec, Cascade.cleaned_step hi.cleaned hi.cascade hacc hs, ?_, fun d hst => ?_,
    fun d how hh => ?_, fun d pid hp => ?_, fun d => ?_⟩
  · rcases Cascade.step_dispatch hs with he | ⟨e, he, hrun⟩
    · rw [he]
      exact hi.held
    · refine step_held hi.held ?_ he
      rcases hrun with ⟨call, rfl⟩ | rfl
      · trivial
      · exact hsound e rfl
  · -- an idle child makes no move
    obtain ⟨hpc, hf⟩ := hi.idle d hst
    have hsame : c.insts d = s.cascade.insts d := by
      refine Cascade.step_other hs fun m hl => ?_
      rw [(hown d m hl).1] at hst
      cases hst
    refine ⟨?_, hfree d (by rw [hpc]; rintro ⟨⟩) hf⟩
    show (c.insts d).pos.pc = _
    rw [hsame]
    exact hpc
  · have hend := hi.heard d how hh
    show Joint.endOf (c.insts d).pos.pc = _
    rw [hclosed d (closed_of_endOf hend)]
    exact hend
  · obtain ⟨hpc, hex⟩ := hi.asked d pid hp
    refine ⟨?_, hex.step hi.cascade hacc hs ?_⟩
    · show (c.insts d).pos.pc = _
      rw [hclosed d (by rw [hpc]; rfl)]
      exact hpc
    · have hpc : (s.cascade.insts d).pos.pc = .returned .noRider := hpc
      rw [hpc]
      rfl
  · refine (hi.parent d).mono (fun ho => ⟨hfree d (ho.not_findAndOffer hi) ho.free, ?_⟩) rfl
      (fun hpc hc => ?_) (hclosed d) (hfree' d)
    · intro hst
      show (c.insts d).pos.pc.closed = true
      rw [hclosed d (ho.ended hst)]
      exact ho.ended hst
    · have hpar := hi.parent d
      rw [hpc] at hpar
      cases hcl : (s.child d).pos.pc.closed with
      | true => exact hfree' d hcl (hpar hcl)
      | false =>
        -- the child ends by this step
        by_cases hl : ∃ m, l = .flow d m
        · obtain ⟨m, rfl⟩ := hl
          have hnext : (c.insts d).pos.pc = nextPc (s.child d) m := Cascade.step_pc hs
          have hnc : (nextPc (s.child d) m).closed = true := by rw [← hnext]; exact hc
          rcases (hown d m rfl).2.leaving hpc hnc with (hcd | hcl') | hun
          · refine Cascade.free_of_cleanUp (hi.cleaned d) hi.cascade hup hs ?_ ?_
            · intro hcan
              have hcan : (s.child d).pos.pc = .cancelled := hcan
              rw [hcan] at hcd
              cases hcd
            · rw [hnext]
              exact Cascade.nextPc_cleanUp hcd hnc
          · rw [hcl] at hcl'
            cases hcl'
          · refine Unoffered.free ?_ hrec hci.minted
            rcases Cascade.step_log hs with hb | ⟨_, _, _, _, hl, -⟩
            · rw [hb.log]
              exact hun
            · cases hl
        · push Not at hl
          have hsame : c.insts d = s.cascade.insts d := Cascade.step_other hs hl
          have hcl' : (c.insts d).pos.pc.closed = true := hc
          rw [hsame] at hcl'
          exact absurd hcl' (by rw [show (s.cascade.insts d).pos.pc.closed = false from hcl]; simp)

/-! ### A move of a parent -/

theorem parentOk_unwind (reason : CancelReason) (void release : Bool) (h : Over s d) :
    ParentOk s d (Workflow.unwind reason void release) t := by
  cases void <;> cases release <;> exact h

theorem ParentOk.attempt {t' : Attempt Saga.Phase Workflow.Answer} (h : ParentOk s d pc t)
    (hpc : pc = .cancelDispatch → ∀ answer, t' = .answered answer → Free s.cascade.world d) :
    ParentOk s d pc t' := by
  cases pc with
  | cancelDispatch => exact ⟨h.1, hpc rfl⟩
  | returned result => cases result <;> exact h
  | _ => exact h

/-- The result of an activity. -/
theorem ParentOk.report {answer : Workflow.Answer} (h : ParentOk s d pc (.answered answer))
    (hi : Inv s) (ha : Workflow.activity pc ≠ none)
    (hreferee : pc = .customerCancel → answer = .ok → (s.child d).pos.pc.closed = true →
      Unoffered s.cascade.world.log d) :
    ParentOk s d (Workflow.afterAnswer pc answer) (.working .first) := by
  cases pc with
  | createOrder => exact h
  | forward stage =>
    have hover : Over s d := over_of_idle hi h
    cases stage with
    | placed =>
      simp only [Workflow.afterAnswer, Workflow.afterForward]
      split
      · exact h
      · exact hover
    | validated =>
      simp only [Workflow.afterAnswer, Workflow.afterForward]
      split
      · exact h
      · exact hover
    | paymentCleared => exact h
  | beginCancel expected reason void release => exact parentOk_unwind reason void release h
  | voidAuthorization reason release => cases release <;> exact h
  | releaseReservation reason => exact h
  | finishCancel reason => exact h
  | customerCancel =>
    simp only [Workflow.afterAnswer]
    split
    · next hok =>
      intro hclosed
      exact (hreferee rfl hok hclosed).free hi.recorded hi.cascade.minted
    · trivial
  | noRiderCancel =>
    simp only [Workflow.afterAnswer]
    split
    · exact ⟨h, by rintro answer ⟨⟩⟩
    · trivial
  | cancelDispatch =>
    have hclosed : (s.child d).pos.pc.closed = true := by rw [h.1]; rfl
    exact parentOk_unwind _ _ _ ⟨h.2 answer rfl, fun _ => hclosed⟩
  | markAccepted | capturePayment | settleOrder => trivial
  | _ => exact absurd rfl ha

/-- What the parent does once its child has ended. -/
theorem parentOk_afterChild {how : Workflow.ChildEnd}
    (h : Joint.endOf (s.child d).pos.pc = some how) : ParentOk s d (Workflow.afterChild how) t := by
  cases how with
  | noRider => exact noRider_of_endOf h
  | _ => trivial

/-- The end of a wait. -/
theorem ParentOk.event {p p' : Workflow.Pos} {e : Workflow.Event} (h : ParentOk s d p.pc t)
    (hi : Inv s)
    (hheard : ∀ how, p.child = some how → Joint.endOf (s.child d).pos.pc = some how)
    (he : Workflow.afterWait p e = some p') :
    ParentOk s d p'.pc (.working .first) ∧ p'.child = p.child := by
  obtain ⟨hends, hsame, -⟩ := Workflow.ends he
  refine ⟨?_, hsame⟩
  cases hends with
  | begins _ hnext | asked _ hnext | started _ _ hnext => rw [hnext]; trivial
  | cancels hpc hnext =>
    rw [hpc] at h
    rw [hnext]
    exact over_of_idle hi h
  | child _ hhow hnext =>
    rw [hnext]
    exact parentOk_afterChild (hheard _ hhow)
  | drained hpc hhow hnext =>
    rw [hpc] at h
    rw [hnext]
    have hclosed := closed_of_endOf (hheard _ hhow)
    exact parentOk_unwind .customerCancelled true true ⟨h hclosed, fun _ => hclosed⟩

/-- **A move of the parent**: what it knows then. -/
theorem Inv.parent_move {m : ParentMove} {w' : Saga.World} {i' : Joint.Parent} (hi : Inv s)
    (htold : Told s d m) (hclean : Clean cap s (.parent d m))
    (hm : move Workflow.flow (Saga.worker cfg) d s.saga.world (s.parent d) m = some (w', i')) :
    ParentOk s d i'.pos.pc i'.attempt ∧
      ∀ how, i'.pos.child = some how → Joint.endOf (s.child d).pos.pc = some how := by
  have hpar := hi.parent d
  have hheard := hi.heard d
  rcases move_cases hm with ⟨input, a, phase, t, rfl, -, -, -, rfl⟩ | ⟨-, hrest⟩
  · exact ⟨hpar.attempt fun hpc _ _ => hi.free_of_answered (htold hpc), hheard⟩
  · rcases hrest with ⟨-, -, rfl⟩ | ⟨a, answer, rfl, ha, ht, rfl⟩ | ⟨a, -, -, -, rfl⟩ |
      ⟨a, -, -, hbound, rfl⟩ | ⟨n, rfl, rfl⟩ | ⟨e, pos, -, he, rfl⟩
    · exact ⟨hpar.attempt (by rintro - answer ⟨⟩), hheard⟩
    · rw [ht] at hpar
      have ha : Workflow.activity (s.parent d).pos.pc = some a := ha
      refine ⟨hpar.report hi (by rw [ha]; simp) fun hpc hok hcl => ?_, hheard⟩
      exact hclean hpc (by rw [ht, hok]) hcl
    · exact ⟨trivial, hheard⟩
    · have hbound : Workflow.isForward (s.parent d).pos.pc = true := hbound
      cases hpc : (s.parent d).pos.pc with
      | forward stage =>
        rw [hpc] at hpar
        have hover : Over s d := over_of_idle hi hpar
        have hexp : Workflow.flow.expired (s.parent d).pos =
            { (s.parent d).pos with pc := Workflow.afterDeadline stage } := by
          simp only [Workflow.flow, hpc]
        rw [hexp]
        exact ⟨hover, hheard⟩
      | _ =>
        rw [hpc] at hbound
        cases hbound
    · have hpc : (Workflow.onSignal (s.parent d).pos n).pc = (s.parent d).pos.pc :=
        Workflow.onSignal_pc _ n
      refine ⟨?_, fun how hh => ?_⟩
      · show ParentOk s d (Workflow.onSignal (s.parent d).pos n).pc (s.parent d).attempt
        rw [hpc]
        exact hpar
      · cases n with
        | childEnded how' =>
          have hh : (s.parent d).pos.child.or (some how') = some how := hh
          cases hold : (s.parent d).pos.child with
          | some how'' =>
            rw [hold] at hh
            cases hh
            exact hheard _ hold
          | none =>
            rw [hold] at hh
            cases hh
            exact htold.2
        | restaurantDecision verdict => exact hheard how hh
        | cancelRequested => exact hheard how hh
    · have he : Workflow.afterWait (s.parent d).pos e = some pos := he
      obtain ⟨hok, hchild⟩ := hpar.event hi hheard he
      refine ⟨hok, fun how hh => hheard how ?_⟩
      rw [← hchild]
      exact hh

/-! ### The run -/

theorem inv_empty : Inv .empty where
  cascade := Cascade.inv_empty
  recorded := Cascade.recorded_empty
  cleaned _ := trivial
  held r d := by
    simp [Held, System.empty, Cascade.System.empty, Dispatch.System.empty, Tables.empty,
      Tables.Active, Tables.Carried, RiderState.absent]
  idle d _ := by
    have hun : Unoffered System.empty.cascade.world.log d := by rintro f ⟨⟩
    exact ⟨rfl, hun.free Cascade.recorded_empty minted_empty⟩
  heard _ _ h := by cases h
  asked _ _ h := by cases h
  parent _ := rfl

/-- A move of one parent, for all orders. -/
theorem Inv.parent_step {m : ParentMove} {w' : Saga.World} {i' : Joint.Parent}
    {asked : OrderId → Option ℕ} (hi : Inv s) (htold : Told s d m)
    (hclean : Clean cap s (.parent d m))
    (hm : move Workflow.flow (Saga.worker cfg) d s.saga.world (s.parent d) m = some (w', i'))
    (hasked : ∀ e pid, asked e = some pid → s.asked e = some pid) :
    Inv { s with saga := ⟨w', Function.update s.saga.insts d i'⟩, asked := asked } := by
  obtain ⟨hok, hheard⟩ := hi.parent_move htold hclean hm
  refine ⟨hi.cascade, hi.recorded, hi.cleaned, hi.held, hi.idle, fun e how hh => ?_,
    fun e pid hp => hi.asked e pid (hasked e pid hp), fun e => ?_⟩
  · have hh : (Function.update s.saga.insts d i' e).pos.child = some how := hh
    by_cases hed : e = d
    · subst hed
      rw [Function.update_self] at hh
      exact hheard how hh
    · rw [Function.update_of_ne hed] at hh
      exact hi.heard e how hh
  · show ParentOk _ e (Function.update s.saga.insts d i' e).pos.pc
      (Function.update s.saga.insts d i' e).attempt
    by_cases hed : e = d
    · subst hed
      rw [Function.update_self]
      exact hok.frame rfl rfl
    · rw [Function.update_of_ne hed]
      exact (hi.parent e).frame rfl rfl

/-- The start of a child. -/
theorem Inv.spawn (hi : Inv s) (hpc : (s.parent d).pos.pc = .startChild) :
    Inv { s with started := Function.update s.started d true } := by
  refine ⟨hi.cascade, hi.recorded, hi.cleaned, hi.held, fun e hst => ?_, hi.heard, hi.asked,
    fun e => ?_⟩
  · have hst : Function.update s.started d true e = false := hst
    by_cases hed : e = d
    · subst hed
      rw [Function.update_self] at hst
      cases hst
    · rw [Function.update_of_ne hed] at hst
      exact hi.idle e hst
  · have hpar := hi.parent e
    by_cases hed : e = d
    · subst hed
      show ParentOk _ e (s.parent e).pos.pc (s.parent e).attempt
      rw [hpc]
      trivial
    · have hst : Function.update s.started d true e = s.started e := Function.update_of_ne hed _ _
      refine hpar.mono (fun ho => ⟨ho.free, fun h => ho.ended (hst.symm.trans h)⟩) hst
        (fun hpc' => ?_) (fun _ => rfl) fun _ h => h
      rw [hpc'] at hpar
      exact hpar

/-- The request of the parent's CANCEL_DISPATCH. -/
theorem Inv.ask {c : Cascade.System} (hi : Inv s) (hpc : (s.parent d).pos.pc = .cancelDispatch)
    (hs : Cascade.step cap s.cascade (.env (.noRiderCancel d)) = some c) :
    Inv { s with
      cascade := c
      asked := Function.update s.asked d (some s.cascade.world.dispatch.ops.length) } := by
  have hnext : Inv { s with saga := { s.saga with world := s.saga.world }, cascade := c } :=
    hi.cascade_step (show Accounted cap s.cascade (.env (.noRiderCancel d)) from trivial) trivial
      (by rintro e ⟨⟩) hs (by rintro e m ⟨⟩)
  have hpar := hi.parent d
  rw [hpc] at hpar
  refine ⟨hnext.cascade, hnext.recorded, hnext.cleaned, hnext.held, hnext.idle, hnext.heard,
    fun e pid hp => ?_, fun e => (hnext.parent e).frame rfl rfl⟩
  have hp : Function.update s.asked d (some s.cascade.world.dispatch.ops.length) e = some pid := hp
  by_cases hed : e = d
  · subst hed
    rw [Function.update_self] at hp
    cases hp
    have hchild : (s.cascade.insts e).pos.pc = .returned .noRider := hpar.1
    have hfree : Cascade.Freeable s.cascade.world.dispatch e :=
      (hi.cascade.order e).offers.freeable (by rw [hchild]; rfl)
    rcases Cascade.step_cases hs with ⟨_, _, _, _, hl, -⟩ | ⟨_, _, hl, -⟩ | ⟨_, hl, -, rfl⟩
    · cases hl
    · cases hl
    · cases hl
      exact ⟨hchild, Cascade.executed_call hfree⟩
  · rw [Function.update_of_ne hed] at hp
    exact hnext.asked e pid hp

theorem Inv.step (hi : Inv s) (hok : Clean cap s l) (hs : Strand.step cap cfg s l = some u) :
    Inv u := by
  cases l with
  | parent d m =>
    simp only [Strand.step] at hs
    split at hs
    · next htold =>
      obtain ⟨saga, hsaga, rfl⟩ := Option.map_eq_some_iff.mp hs
      obtain ⟨⟨w', i'⟩, hm, rfl⟩ := Option.map_eq_some_iff.mp hsaga
      refine hi.parent_step htold hok hm fun e pid hp => ?_
      split at hp
      · by_cases hed : e = d
        · subst hed
          rw [Function.update_self] at hp
          cases hp
        · rwa [Function.update_of_ne hed] at hp
      · exact hp
    · cases hs
  | spawn d =>
    simp only [Strand.step] at hs
    split at hs
    · next hpc =>
      cases hs
      exact hi.spawn hpc
    · cases hs
  | child d now m =>
    simp only [Strand.step] at hs
    split at hs
    · next hguard =>
      obtain ⟨w, -, hs⟩ := Option.bind_eq_some_iff.mp hs
      obtain ⟨c, hc, rfl⟩ := Option.map_eq_some_iff.mp hs
      refine hi.cascade_step hok.1 hok.2.1 (by rintro e ⟨⟩) hc fun e m' hl => ?_
      cases hl
      exact ⟨hguard.1, hok.2.2⟩
    · cases hs
  | cancelDispatch d =>
    simp only [Strand.step] at hs
    split at hs
    · next hguard =>
      obtain ⟨c, hc, rfl⟩ := Option.map_eq_some_iff.mp hs
      exact hi.ask hguard.1 hc
    · cases hs
  | orders e =>
    simp only [Strand.step] at hs
    split at hs
    · cases hs
    · obtain ⟨saga, hsaga, rfl⟩ := Option.map_eq_some_iff.mp hs
      obtain ⟨w', -, rfl⟩ := Option.map_eq_some_iff.mp hsaga
      exact ⟨hi.cascade, hi.recorded, hi.cleaned, hi.held, hi.idle, hi.heard, hi.asked,
        fun d => (hi.parent d).frame rfl rfl⟩
  | dispatch e =>
    simp only [Strand.step] at hs
    obtain ⟨c, hc, rfl⟩ := Option.map_eq_some_iff.mp hs
    refine hi.cascade_step (w := s.saga.world) hok.1 trivial (fun e' he => ?_) hc
      (by rintro e' m ⟨⟩)
    cases he
    exact hok.2

theorem inv_of_run {is : List Label} (h : Run (Strand.step cap cfg) (Clean cap) .empty is s) :
    Inv s :=
  h.invariant inv_empty fun _ _ _ hi hok hs => hi.step hok hs

/-- **No cancelled order strands a rider**, in every run in which no offer gets lost, no write
comes too late, and a child that its parent cancels ends by its clean-up. -/
theorem unstranded_of_run {is : List Label}
    (h : Run (Strand.step cap cfg) (Clean cap) .empty is s)
    (hpc : (s.parent d).pos.pc = .returned .cancelled) : Unstranded s.cascade.world d := by
  have hi := inv_of_run h
  have hover : Over s d := by
    have hpar := hi.parent d
    rw [hpc] at hpar
    exact hpar
  obtain ⟨hset, hno, -, hna⟩ := hover.free
  refine ⟨hset, hno, hna, fun hq rider hact => ?_⟩
  obtain ⟨row, hrow, hst, hr⟩ := (hi.held.agree hq rider d).mp hact
  exact ⟨row, hrow, hr, hst.resolve_left (hna row hrow)⟩

end

/-! ### Runs -/

/-- The steps of an activity of the parent that is answered, with one remote call or two. -/
def once (d : OrderId) : List Label := [.parent d (.work ⟨0, .ok⟩), .parent d .report]

def twice (d : OrderId) : List Label := .parent d (.work ⟨0, .ok⟩) :: once d

/-- An activity of the child sends its request, makes its store calls and is answered. -/
def sends (d : OrderId) (candidates : List RiderId) : List Label :=
  [.child d 0 (.work ⟨candidates, true⟩)]

def calls (pid : ℕ) (mints : List OfferId) : List Label :=
  mints.map fun fresh => .dispatch (.run pid fresh)

def receives (d : OrderId) : List Label := [.child d 0 (.work ⟨[], true⟩), .child d 0 .report]

/-- A signal to the child that it has been waiting for. -/
def wakes (d : OrderId) (i : CourierSignal) : List Label :=
  [.child d 0 (.signal (.signal i)), .child d 0 (.event .wake)]

/-- The order is accepted and cooked, and its child is running. -/
def upToCooked (d : OrderId) : List Label :=
  [.orders (.setStock "r" "i" 5)] ++ once d ++ twice d ++ twice d ++ once d ++
    [.parent d (.signal (.restaurantDecision .accept)), .parent d (.event .wake), .spawn d,
      .parent d (.event .childStarted)] ++ once d ++
    [.orders (.otherMove d .preparing 0), .orders (.otherMove d .ready 0)] ++ wakes d .foodReady

/-- A rider accepts the order, which the child is about to record. -/
def upToAccepted (d : OrderId) : List Label :=
  upToCooked d ++ [.dispatch (.online "r1")] ++ sends d ["r1"] ++ calls 0 ["o1", ""] ++
    receives d ++ [.dispatch (.start (.acceptOffer "r1" "o1" d))] ++ calls 1 ["", ""] ++
    wakes d (.offerAccepted "o1" "r1")

/-- The customer cancels, and the row goes to CANCELLING. -/
def cancels (d : OrderId) : List Label :=
  [.parent d (.signal .cancelRequested), .parent d (.event .wake)] ++ once d

/-- The parent hears of the end of its child, and unwinds. -/
def unwinds (d : OrderId) (how : Workflow.ChildEnd) : List Label :=
  [.parent d (.signal (.childEnded how)), .parent d (.event .wake)] ++ once d ++ once d ++ once d

/-- The cancel comes while the child waits for the pickup. -/
def cancelledAtPickup (d : OrderId) : List Label :=
  upToAccepted d ++ receives d ++ cancels d ++ [.child d 0 (.event .cancel)] ++ sends d [] ++
    calls 2 ["", "", "", "", ""] ++ receives d ++ unwinds d .cancelled

/-- The cancel comes while the child records the rider. -/
def cancelledAtRecordRider (d : OrderId) : List Label :=
  upToAccepted d ++ cancels d ++ [.child d 0 (.event .cancel)] ++ unwinds d .failed

theorem unstranded_of_run_cancelledAtPickup : ∃ s,
    Run (step 2 Joint.oneCart) (Clean 2) .empty (cancelledAtPickup "d") s ∧
      (s.parent "d").pos.pc = .returned .cancelled ∧
      Cascade.Fact.assigned "d" "r1" "o1" ∈ s.cascade.world.log ∧
      Unstranded s.cascade.world "d" := by
  obtain ⟨s, hs, hp⟩ : ∃ s,
      Run (step 2 Joint.oneCart) (Clean 2) .empty (cancelledAtPickup "d") s ∧
        decide ((s.parent "d").pos.pc = .returned .cancelled ∧
          Cascade.Fact.assigned "d" "r1" "o1" ∈ s.cascade.world.log) = true :=
    exists_run_of_execOk (by decide)
  obtain ⟨hpc, hlog⟩ := of_decide_eq_true hp
  exact ⟨s, hs, hpc, hlog, unstranded_of_run hs hpc⟩

/-- **A stranded rider**: the activity of the child is cancelled, so the child fails without a
clean-up, and the order is CANCELLED while its rider still has it. -/
theorem stranded : ∃ s,
    Run (step 2 Joint.oneCart) Always .empty (cancelledAtRecordRider "d") s ∧
      (s.parent "d").pos.pc = .returned .cancelled ∧ Quiet s.cascade.world.dispatch ∧
      s.cascade.world.dispatch.tables.Active "r1" "d" ∧
      s.cascade.world.dispatch.tables.deliveries "d" = some ⟨.assigned, "r1", "o1"⟩ ∧
      Cascade.Fact.cancelled "d" ∉ s.cascade.world.log ∧ ¬ Unstranded s.cascade.world "d" := by
  obtain ⟨s, hs, hp⟩ : ∃ s,
      Run (step 2 Joint.oneCart) Always .empty (cancelledAtRecordRider "d") s ∧
        decide ((s.parent "d").pos.pc = .returned .cancelled ∧ Quiet s.cascade.world.dispatch ∧
          s.cascade.world.dispatch.tables.Active "r1" "d" ∧
          s.cascade.world.dispatch.tables.deliveries "d" = some ⟨.assigned, "r1", "o1"⟩ ∧
          Cascade.Fact.cancelled "d" ∉ s.cascade.world.log) = true :=
    exists_run_of_execOk (by decide)
  obtain ⟨hpc, hq, hact, hrow, hlog⟩ := of_decide_eq_true hp
  exact ⟨s, hs, hpc, hq, hact, hrow, hlog, fun h => h.unassigned _ hrow rfl⟩

end Strand

end Order
