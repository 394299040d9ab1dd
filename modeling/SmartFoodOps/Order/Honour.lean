/-
A submitted cancel is honoured, unless the courier won.

The workflow reads the customer's flag at two of its awaits only, and the row referees
against the courier.

* `Alone` — the order's own steps: no signal, no timer and no other writer helps, until
  the courier has the food;
* `attempt_answered`, `child_stops`, `child_delivers` — what is awaited can come;
* `leaves` — so a workflow that has heard the cancel goes on, nearer to its end;
* `cancel_honoured` — the contract of `CancelSubmitted`, in every state that follows it;
* `capture_refused` — payment may refuse the capture, and then the workflow fails.
-/
import SmartFoodOps.Order.Steady

open Machine Durable
open Dispatch (OrderId RiderId)

namespace Order

namespace Joint

open Saga (Config Phase Input OtherMove View Spec Fits Moves)

/-! ### The reservation before VALIDATED -/

/-- A row that has been moved to VALIDATED has its reservation, so that a repeated
reservation is a replay. -/
def Stocked (pc : Workflow.Pc) (t : Attempt Phase Workflow.Answer) (v : View) : Prop :=
  pc = .forward .placed →
    (v.status = some .validated ∨ t = .working .second ∨ t = .answered .ok → v.reservation ≠ none) ∧
    (∀ a, a ≠ .ok → t = .answered a → v.status = some .placed)

section

variable {cfg : Config} {order : OrderId} {pc : Workflow.Pc} {t : Attempt Phase Workflow.Answer}
  {v v' : View} {phase : Phase}

theorem Stocked.work {a : Workflow.Activity} (h : Stocked pc (.working phase) v)
    (hf : Fits pc (.working phase) v.status) (ha : Workflow.activity pc = some a)
    (hs : Spec a phase v v' t) : Stocked pc t v' := by
  rintro rfl
  cases ha
  obtain ⟨hres, -⟩ := h rfl
  cases phase with
  | first =>
    rcases hs with ⟨rfl, rfl⟩ | ⟨rfl, hnone, hans⟩
    · exact ⟨fun _ => nofun, nofun⟩
    · have hst : v'.status = some .placed :=
        hf.1.resolve_right fun hv => hres (.inl hv) hnone
      refine ⟨?_, fun _ _ _ => hst⟩
      rw [hst]
      rcases hans with rfl | rfl <;> simp
  | second =>
    have hres := hres (.inr (.inl rfl))
    rcases hs with ⟨-, rfl, rfl⟩ | ⟨-, -, rfl, rfl⟩
    · refine ⟨fun _ => hres, fun a hne ht => ?_⟩
      exact absurd (Attempt.answered.inj ht).symm hne
    · exact ⟨fun _ => hres, nofun⟩

/-- The reservation is made only once the order has been created. -/
theorem createOrder_of_afterAnswer {answer : Workflow.Answer} (ha : Workflow.activity pc ≠ none)
    (h : Workflow.afterAnswer pc answer = .forward .placed) : pc = .createOrder := by
  have hleads := Workflow.leads answer ha
  rw [h] at hleads
  cases hleads
  rfl

theorem afterWait_ne_forward {p p' : Workflow.Pos} {e : Workflow.Event} {stage : Workflow.Stage}
    (he : Workflow.afterWait p e = some p') : p'.pc ≠ .forward stage := by
  cases (Workflow.ends he).1 with
  | @child how _ _ hnext => cases how <;> simp [hnext, Workflow.afterChild]
  | _ => simp [*]

theorem stocked_of_run {is : List Saga.SagaLabel} {s : Saga.System}
    (h : Run (Saga.step cfg) Always .empty is s) (order : OrderId) :
    Stocked (s.insts order).pos.pc (s.insts order).attempt (Saga.view order s.world) := by
  have h0 : Fits .createOrder (.working .first) none ∧
      Stocked .createOrder (.working .first) (Saga.view order Saga.World.empty) :=
    ⟨⟨.inl rfl, by rintro _ ⟨⟩⟩, by rintro ⟨⟩⟩
  refine (family_invariant order (Saga.view order)
    (fun v (i : Parent) => Fits i.pos.pc i.attempt v.status ∧ Stocked i.pos.pc i.attempt v)
    (fun j a phase input w w' attempt hj hw => Saga.work_frame hw (Ne.symm hj))
    (fun t m w' i' hI _ hm => ⟨hI.1.own hm, ?_⟩) (fun t e w' hI _ he => ?_) h0 h).2
  · obtain ⟨hf, hst⟩ := hI
    rcases move_cases hm with ⟨input, a, phase, t, -, ha, hp, hw, rfl⟩ | ⟨rfl, hrest⟩
    · rw [hp] at hf hst
      exact hst.work hf ha (Saga.work_spec hw)
    · have hlate : ∀ {pos : Workflow.Pos}, (pos.pc = .forward .placed →
          (Saga.view order t.world).status = some .placed) →
          Stocked pos.pc (.working .first) (Saga.view order t.world) := by
        intro pos hpos hpc
        refine ⟨?_, (by simp)⟩
        rw [hpos hpc]
        simp
      rcases hrest with ⟨-, -, rfl⟩ | ⟨a, answer, -, ha, hr, rfl⟩ | ⟨a, -, -, -, rfl⟩ |
        ⟨a, -, -, hb, rfl⟩ | ⟨n, -, rfl⟩ | ⟨e, pos, -, he, rfl⟩
      · have hfirst : ¬ ((.working .first : Attempt Phase Workflow.Answer) = .working .second ∨
            (.working .first : Attempt Phase Workflow.Answer) = .answered .ok) := by simp
        exact fun hpc => ⟨fun hor => (hst hpc).1 (.inl (hor.resolve_right hfirst)),
          by rintro _ _ ⟨⟩⟩
      · refine hlate fun hpc => ?_
        have hne : Workflow.activity (t.insts order).pos.pc ≠ none := by
          rw [show Workflow.activity (t.insts order).pos.pc = some a from ha]; simp
        rw [createOrder_of_afterAnswer hne hpc] at hf
        exact hf.2 answer hr
      · exact hlate (by rintro ⟨⟩)
      · obtain ⟨stage, hpc⟩ := forward_of_deadline hb
        have hexp : (Workflow.flow.expired (t.insts order).pos).pc =
            Workflow.afterDeadline stage := by
          simp [Workflow.flow, hpc]
        exact hlate fun hpos => by
          rw [Inst.enter_pos, hexp] at hpos
          cases hpos
      · show Stocked (Workflow.onSignal _ n).pc _ _
        rw [Workflow.onSignal_pc]
        exact hst
      · exact hlate fun hpos => absurd hpos (afterWait_ne_forward he)
  · obtain ⟨hf, hst⟩ := hI
    rcases Saga.environment_spec order he with hv | ⟨m, now, -, hs, hv⟩ | ⟨rest, -, -, hv⟩
    · rw [hv]
      exact ⟨hf, hst⟩
    · rw [hv]
      refine ⟨hf.other m hs, fun hpc => ?_⟩
      rw [hpc, hs] at hf
      rcases hf.1 with hv | hv <;> cases m <;> cases hv
    · rw [hv]
      have hsame : (Saga.finished .expired true (Saga.view order t.world)).status =
          (Saga.view order t.world).status := by
        unfold Saga.finished
        split <;> rfl
      refine ⟨by rw [hsame]; exact hf, fun hpc => ?_⟩
      rw [hsame]
      refine ⟨fun hor => ?_, (hst hpc).2⟩
      have hres := (hst hpc).1 hor
      unfold Saga.finished
      split
      · exact Option.some_ne_none _
      · exact hres

end

/-! ### The order's own steps -/

/-- The order's workflows and activities take the step: not a signal from outside, a
timer, or another writer. -/
def Own (order : OrderId) : Label → Prop
  | .parent o (.work _) | .parent o .lose | .parent o .report | .parent o (.event .wake)
  | .parent o (.event .childStarted) | .parent o (.signal (.childEnded _)) | .spawn o
  | .child o (.work _) | .child o .lose | .child o .report | .child o (.event .cancel) => o = order
  | _ => False

/-- Nobody else is needed, but for the courier who has the food. -/
def Alone (order : OrderId) (s : System) (l : Label) : Prop :=
  Legal order s l ∧ (Own order l ∨ PickedUp (s.status order))

/-- What the order comes to alone. -/
structure Reaches (cfg : Config) (order : OrderId) (s u : System) : Prop where
  run : ∃ js, Run (step cfg) (Alone order) s js u
  picked : PickedUp (u.status order) ↔ PickedUp (s.status order)

section

variable {cfg : Config} {s u r : System} {l : Label} {order : OrderId}

theorem Reaches.refl : Reaches cfg order s s := ⟨⟨[], .nil⟩, .rfl⟩

theorem Reaches.trans (h : Reaches cfg order s u) (h' : Reaches cfg order u r) :
    Reaches cfg order s r := by
  obtain ⟨⟨js, hjs⟩, hp⟩ := h
  obtain ⟨⟨ks, hks⟩, hp'⟩ := h'
  exact ⟨⟨js ++ ks, hjs.append hks⟩, hp'.trans hp⟩

/-- A legal run leads to the state. -/
def Legally (cfg : Config) (order : OrderId) (s : System) : Prop :=
  ∃ is, Run (step cfg) (Legal order) .empty is s

theorem Reaches.legally (h : Reaches cfg order s u) (hs : Legally cfg order s) :
    Legally cfg order u := by
  obtain ⟨⟨js, hjs⟩, -⟩ := h
  obtain ⟨is, his⟩ := hs
  exact ⟨is ++ js, his.append (hjs.mono fun _ _ => And.left)⟩

/-- A child's or a kitchen's move takes the row to the pickup from before it, or beyond;
nothing takes it back. -/
theorem pickedUp_step (hexp : Lifecycle.Expects (s.parent order).pos.pc)
    (hs : step cfg s l = some u) (h : PickedUp (s.status order)) : PickedUp (u.status order) := by
  rcases seen order hs with
    ⟨m, i', -, -, hm, -⟩ | ⟨_, _, _, -, -, -, hm, -⟩ | ⟨-, -, -, hst, -⟩ | ⟨m, hm, hs, -⟩ |
    ⟨-, -, -, hst, -⟩ | ⟨hst, -⟩
  · rcases move_cases hm with ⟨input, a, phase, t, -, ha, -, hw, -⟩ | ⟨hw, -⟩
    · exact pickedUp_work hexp ha (Saga.work_spec hw) h
    · rw [System.status, hw]
      exact h
  · have hst : u.status order = s.status order ∨
        s.status order = some .ready ∧ u.status order = some .pickedUp ∨
        s.status order = some .pickedUp ∧ u.status order = some .delivered := childMove_status hm
    rcases hst with hst | ⟨-, hst⟩ | ⟨-, hst⟩
    · rw [hst]; exact h
    · exact .inl hst
    · exact .inr (.inl hst)
  · rw [hst]; exact h
  · rw [hs] at h
    rcases hm with rfl | rfl <;> exact absurd h (by decide)
  · rw [hst]; exact h
  · rw [hst]; exact h

/-- One step that is the order's own, and not its courier's. -/
theorem Reaches.step (hs : Legally cfg order s) (hstep : Joint.step cfg s l = some u)
    (hlegal : Legal order s l) (hor : Own order l ∨ PickedUp (s.status order))
    (hpick : PickedUp (u.status order) → PickedUp (s.status order)) : Reaches cfg order s u := by
  obtain ⟨is, his⟩ := hs
  exact ⟨⟨[l], .cons ⟨hlegal, hor⟩ hstep .nil⟩,
    hpick, pickedUp_step (fits_of_run his order).2 hstep⟩

/-- A move of the parent. -/
theorem reaches_parent {m : Move Input Workflow.Signal Workflow.Event} {i' : Parent}
    {w' : Saga.World} (hs : Legally cfg order s) (hown : Own order (.parent order m))
    (hlegal : Legal order s (.parent order m)) (htold : Told (s.children order) m)
    (hm : move Workflow.flow (Saga.worker cfg) order s.saga.world (s.parent order) m =
      some (w', i')) :
    ∃ u, Reaches cfg order s u ∧ u.saga.world = w' ∧ u.parent order = i' ∧
      u.children order = s.children order := by
  obtain ⟨u, hstep, hw, hp, hc⟩ : ∃ u, Joint.step cfg s (.parent order m) = some u ∧
      u.saga.world = w' ∧ u.parent order = i' ∧ u.children order = s.children order := by
    have hm : move Workflow.flow (Saga.worker cfg) order s.saga.world (s.saga.insts order) m =
      some (w', i') := hm
    simp only [Joint.step, if_pos htold, Saga.step, familyStep, hm, Option.map_some]
    exact ⟨_, rfl, rfl, Function.update_self .., rfl⟩
  refine ⟨u, .step hs hstep hlegal (.inl hown) fun hp => ?_, hw, hp, hc⟩
  obtain ⟨is, his⟩ := hs
  rcases move_cases hm with ⟨input, a, phase, t, -, ha, -, hw', -⟩ | ⟨hw', -⟩
  · rw [← hw] at hw'
    rcases work_status (fits_of_run his order).2 ha (Saga.work_spec hw') with he | ⟨-, hn⟩ |
      ⟨-, hst, -⟩
    · rw [status_view, he] at hp
      exact hp
    · exact absurd hp hn
    · exact .inr (.inl hst)
  · rw [System.status, hw, hw'] at hp
    exact hp

/-- The parent's attempt makes its next step. -/
theorem reaches_work {a : Workflow.Activity} {phase : Phase} {input : Input} {w' : Saga.World}
    {t : Attempt Phase Workflow.Answer} (hs : Legally cfg order s)
    (ha : Workflow.activity (s.parent order).pos.pc = some a)
    (hp : (s.parent order).attempt = .working phase)
    (hw : Saga.work cfg order a phase input s.saga.world = some (w', t)) :
    ∃ u, Reaches cfg order s u ∧ u.saga.world = w' ∧
      u.parent order = ⟨(s.parent order).pos, t⟩ ∧ u.children order = s.children order := by
  refine reaches_parent (m := .work input) hs rfl trivial trivial ?_
  have ha : Workflow.flow.pending (s.parent order).pos = some a := ha
  have hw : (Saga.worker cfg).work order a phase input s.saga.world = some (w', t) := hw
  simp [move, ha, hp, hw]

theorem reaches_lose {a : Workflow.Activity} (hs : Legally cfg order s)
    (ha : Workflow.activity (s.parent order).pos.pc = some a) :
    ∃ u, Reaches cfg order s u ∧ u.saga.world = s.saga.world ∧
      u.parent order = .enter (Saga.worker cfg) (s.parent order).pos ∧
      u.children order = s.children order := by
  refine reaches_parent (m := .lose) hs rfl trivial trivial ?_
  have ha : Workflow.flow.pending (s.parent order).pos = some a := ha
  simp [move, ha]

/-- The answer reaches the parent. -/
theorem reaches_report {a : Workflow.Activity} {answer : Workflow.Answer}
    (hs : Legally cfg order s) (ha : Workflow.activity (s.parent order).pos.pc = some a)
    (hr : (s.parent order).attempt = .answered answer) :
    ∃ u, Reaches cfg order s u ∧ u.saga.world = s.saga.world ∧
      u.parent order = .enter (Saga.worker cfg) { (s.parent order).pos with
        pc := Workflow.afterAnswer (s.parent order).pos.pc answer } ∧
      u.children order = s.children order := by
  refine reaches_parent (m := .report) hs rfl (fun _ href => ?_) trivial ?_
  · rw [hr] at href
    cases href
  · simp [move, Workflow.flow, ha, hr]

/-- A wait of the parent ends. -/
theorem reaches_wake {pos : Workflow.Pos} (hs : Legally cfg order s)
    (he : Workflow.afterWait (s.parent order).pos .wake = some pos) :
    ∃ u, Reaches cfg order s u ∧ u.saga.world = s.saga.world ∧
      u.parent order = .enter (Saga.worker cfg) pos ∧ u.children order = s.children order := by
  refine reaches_parent (m := .event .wake) hs rfl trivial trivial ?_
  simp [move, Workflow.flow, he]

/-! ### What is awaited can come -/

theorem grants_of_fits {parent : Parent} {child : Option Child} {st : Option OrderStatus}
    (hf : Fits parent.pos.pc parent.attempt st) (hr : Refereed parent child st)
    (hb : ∀ expected reason void release,
      parent.pos.pc ≠ .beginCancel expected reason void release)
    (hm : parent.pos.pc ≠ .markAccepted) : Grants parent.pos.pc st := by
  cases hpc : parent.pos.pc with
  | forward stage => rw [hpc] at hf; exact hf.1
  | finishCancel reason => rw [hpc] at hf; exact hf.1
  | settleOrder => exact hr.delivered (.inr hpc)
  | beginCancel expected reason void release => exact absurd hpc (hb _ _ _ _)
  | markAccepted => exact absurd hpc hm
  | _ => trivial

/-- A guarded move whose guard is granted is answered. -/
theorem answered_of_moves {expected target : OrderStatus} {answer : Workflow.Answer} {v v' : View}
    {t : Attempt Phase Workflow.Answer} (h : Moves expected target answer v v' t)
    (hg : v.status = some expected ∨ v.status = some target) : t = .answered answer := by
  rcases h with ⟨-, -, ht⟩ | ⟨h1, h2, -⟩
  · exact ht
  · exact absurd hg (not_or_intro h1 h2)

/-- An attempt of one call is answered. -/
theorem answered_of_work {a : Workflow.Activity} {phase : Phase} {input : Input} {w' : Saga.World}
    {answer : Workflow.Answer} (hs : Legally cfg order s)
    (ha : Workflow.activity (s.parent order).pos.pc = some a)
    (hp : (s.parent order).attempt = .working phase)
    (hw : Saga.work cfg order a phase input s.saga.world = some (w', .answered answer)) :
    ∃ u answer, Reaches cfg order s u ∧
      u.parent order = ⟨(s.parent order).pos, .answered answer⟩ ∧
      u.children order = s.children order := by
  obtain ⟨u, hu, -, hpar, hc⟩ := reaches_work hs ha hp hw
  exact ⟨u, answer, hu, hpar, hc⟩

/-- An attempt of two calls, whose second is a guarded move. -/
theorem answered_of_second {a : Workflow.Activity} {input : Input} {w' : Saga.World}
    {expected target : OrderStatus} {answer : Workflow.Answer} (hs : Legally cfg order s)
    (ha : Workflow.activity (s.parent order).pos.pc = some a)
    (hp : (s.parent order).attempt = .working .first)
    (hw : Saga.work cfg order a .first input s.saga.world = some (w', .working .second))
    (hsecond : ∀ w, ∃ w' t, Saga.work cfg order a .second input w = some (w', t) ∧
      Moves expected target answer (Saga.view order w) (Saga.view order w') t)
    (hg : (Saga.view order w').status = some expected ∨ (Saga.view order w').status = some target) :
    ∃ u, Reaches cfg order s u ∧
      u.parent order = ⟨(s.parent order).pos, .answered answer⟩ ∧
      u.children order = s.children order := by
  obtain ⟨u, hu, hworld, hpar, hc⟩ := reaches_work hs ha hp hw
  obtain ⟨w'', t, hw'', hm⟩ := hsecond u.saga.world
  rw [hworld] at hm
  obtain rfl := answered_of_moves hm hg
  obtain ⟨r, hr, -, hpar', hc'⟩ := reaches_work (hu.legally hs) (by rw [hpar]; exact ha)
    (by rw [hpar]) hw''
  refine ⟨r, hu.trans hr, ?_, hc'.trans hc⟩
  rw [hpar', hpar]

/-- The guard of an activity. -/
def Guarded (a : Workflow.Activity) (st : Option OrderStatus) : Prop :=
  match a with
  | .validateAndReserve => st = some .placed ∨ st = some .validated
  | .authorizePayment => st = some .validated ∨ st = some .paymentCleared
  | .confirmOrder => st = some .paymentCleared ∨ st = some .confirmed
  | .markAccepted => st = some .confirmed ∨ st = some .accepted
  | .beginCancel expected _ => st = some expected ∨ st = some .cancelling
  | .finishCancel _ => st = some .cancelling ∨ st = some .cancelled
  | .settleOrder => st = some .delivered ∨ st = some .settled
  | _ => True

theorem guarded_of_grants {pc : Workflow.Pc} {a : Workflow.Activity} {st : Option OrderStatus}
    (ha : Workflow.activity pc = some a) (hg : Grants pc st) : Guarded a st := by
  cases pc with
  | forward stage => cases stage <;> cases ha <;> exact hg
  | _ => cases ha <;> exact hg

/-- **A fresh attempt whose guard is granted can be answered**; payment need not decline. -/
theorem fresh_answered {a : Workflow.Activity} (hs : Legally cfg order s)
    (ha : Workflow.activity (s.parent order).pos.pc = some a)
    (hp : (s.parent order).attempt = .working .first)
    (hg : Grants (s.parent order).pos.pc (s.status order)) :
    ∃ u answer, Reaches cfg order s u ∧
      u.parent order = ⟨(s.parent order).pos, .answered answer⟩ ∧
      u.children order = s.children order ∧ (a = .authorizePayment → answer = .ok) := by
  have hg : Guarded a (Saga.view order s.saga.world).status := guarded_of_grants ha hg
  obtain ⟨w', t, hw⟩ := Saga.work_first cfg order a ⟨0, .ok⟩ s.saga.world
  have hspec := Saga.work_spec hw
  have hone : a ≠ .authorizePayment → (∃ answer, t = .answered answer) →
      ∃ u answer, Reaches cfg order s u ∧
        u.parent order = ⟨(s.parent order).pos, .answered answer⟩ ∧
        u.children order = s.children order ∧ (a = .authorizePayment → answer = .ok) := by
    rintro hne ⟨answer, rfl⟩
    obtain ⟨u, ans, hu, hpar, hc⟩ := answered_of_work hs ha hp hw
    exact ⟨u, ans, hu, hpar, hc, fun he => absurd he hne⟩
  cases a with
  | validateAndReserve =>
    rcases hspec with ⟨hv, rfl⟩ | ⟨-, -, ht⟩
    · have hsecond : ∀ w, ∃ w' t,
          Saga.work cfg order .validateAndReserve .second ⟨0, .ok⟩ w = some (w', t) ∧
            Moves .placed .validated .ok (Saga.view order w) (Saga.view order w') t :=
        fun w => ⟨_, _, rfl, Saga.moveRow_spec rfl⟩
      obtain ⟨u, hu, hpar, hc⟩ := answered_of_second hs ha hp hw hsecond (by rw [hv]; exact hg)
      exact ⟨u, _, hu, hpar, hc, (by rintro ⟨⟩)⟩
    · exact hone (by rintro ⟨⟩) (by rcases ht with rfl | rfl <;> exact ⟨_, rfl⟩)
  | authorizePayment =>
    have ht : t = .working .second := by
      simp only [Saga.work, Saga.authorize, Option.some.injEq, Prod.mk.injEq] at hw
      exact hw.2.symm
    subst ht
    obtain ⟨hv, -⟩ := hspec
    have hsecond : ∀ w, ∃ w' t,
        Saga.work cfg order .authorizePayment .second ⟨0, .ok⟩ w = some (w', t) ∧
          Moves .validated .paymentCleared .ok (Saga.view order w) (Saga.view order w') t :=
      fun w => ⟨_, _, rfl, Saga.moveRow_spec rfl⟩
    obtain ⟨u, hu, hpar, hc⟩ := answered_of_second hs ha hp hw hsecond (by rw [hv]; exact hg)
    exact ⟨u, _, hu, hpar, hc, fun _ => rfl⟩
  | settleOrder =>
    obtain ⟨hv, rfl⟩ := hspec
    have hst : (Saga.view order w').status = (Saga.view order s.saga.world).status := by
      rw [hv, Saga.finished]
      split <;> rfl
    have hsecond : ∀ w, ∃ w' t,
        Saga.work cfg order .settleOrder .second ⟨0, .ok⟩ w = some (w', t) ∧
          Moves .delivered .settled .done (Saga.view order w) (Saga.view order w') t :=
      fun w => ⟨_, _, rfl, Saga.moveRow_spec rfl⟩
    obtain ⟨u, hu, hpar, hc⟩ := answered_of_second hs ha hp hw hsecond (by rw [hst]; exact hg)
    exact ⟨u, _, hu, hpar, hc, (by rintro ⟨⟩)⟩
  | capturePayment =>
    refine hone (by rintro ⟨⟩) ⟨.done, ?_⟩
    simp only [Saga.work, Option.some.injEq, Prod.mk.injEq] at hw
    exact hw.2.symm
  | confirmOrder | markAccepted | beginCancel | finishCancel =>
    exact hone (by rintro ⟨⟩) ⟨_, answered_of_moves hspec hg⟩
  | tryBeginCancel reason =>
    refine hone (by rintro ⟨⟩) ?_
    rcases hspec with ⟨-, -, ht⟩ | ⟨-, -, ht⟩ <;> exact ⟨_, ht⟩
  | createOrder | voidAuthorization | releaseReservation | cancelDispatch =>
    exact hone (by rintro ⟨⟩) ⟨_, hspec.2⟩

/-- **What the parent awaits from an activity can come.** -/
theorem attempt_answered {a : Workflow.Activity} (hs : Legally cfg order s)
    (ha : Workflow.activity (s.parent order).pos.pc = some a)
    (hd : ¬ Doomed (s.parent order) (s.status order)) :
    ∃ u answer, Reaches cfg order s u ∧
      u.parent order = ⟨(s.parent order).pos, .answered answer⟩ ∧
      u.children order = s.children order ∧ (a = .authorizePayment → answer = .ok) := by
  by_cases hans : a ≠ .authorizePayment ∧ ∃ answer, (s.parent order).attempt = .answered answer
  · obtain ⟨hne, answer, hat⟩ := hans
    refine ⟨s, answer, .refl, ?_, rfl, fun he => absurd he hne⟩
    rw [← hat]
  · -- a new attempt
    have hg : Grants (s.parent order).pos.pc (s.status order) := by
      by_cases hauth : a = .authorizePayment
      · subst hauth
        obtain ⟨is, his⟩ := hs
        have hf := (fits_of_run his order).1
        cases hpc : (s.parent order).pos.pc <;> rw [hpc] at ha hf <;> first | cases ha | skip
        exact hf.1
      · by_contra hng
        exact hd ⟨fun answer hat => hans ⟨hauth, answer, hat⟩, hng⟩
    obtain ⟨u, hu, hw, hpar, hc⟩ := reaches_lose hs ha
    have hpos : (u.parent order).pos = (s.parent order).pos := by rw [hpar]; rfl
    obtain ⟨r, answer, hr, hpar', hc', hok⟩ := fresh_answered (hu.legally hs)
      (by rw [hpos]; exact ha) (by rw [hpar]; rfl)
      (by rw [hpos, System.status, hw]; exact hg)
    exact ⟨r, answer, hu.trans hr, by rw [hpar', hpos], hc'.trans hc, hok⟩

/-- A move of the child. -/
theorem reaches_child {m : Move ChildInput Delivery.News Delivery.Event} {i i' : Child}
    {w' : Saga.World} (hs : Legally cfg order s) (hi : s.children order = some i)
    (hor : Own order (.child order m) ∨ PickedUp (s.status order))
    (hlegal : Legal order s (.child order m))
    (hask : m = .event .cancel → asksCancel (s.parent order).pos.pc = true)
    (hm : move Delivery.flow childWorker order s.saga.world i m = some (w', i'))
    (hpick : PickedUp (statusOf (w'.orders order)) → PickedUp (s.status order)) :
    ∃ u, Reaches cfg order s u ∧ u.saga.world = w' ∧ u.children order = some i' ∧
      u.parent order = s.parent order := by
  obtain ⟨u, hstep, hw, hc, hp⟩ : ∃ u, Joint.step cfg s (.child order m) = some u ∧
      u.saga.world = w' ∧ u.children order = some i' ∧ u.parent order = s.parent order := by
    simp only [Joint.step, hi, if_pos hask, hm, Option.map_some]
    exact ⟨_, rfl, rfl, Function.update_self .., rfl⟩
  exact ⟨u, .step hs hstep hlegal hor (by rw [System.status, hw]; exact hpick), hw, hc, hp⟩

/-- What the child awaits from an activity comes, after a new attempt. -/
theorem child_answered {i : Child} {a : Delivery.Activity} (input : ChildInput)
    {w' : Saga.World} {answer : Delivery.Answer} (hs : Legally cfg order s)
    (hi : s.children order = some i) (ha : Delivery.activity i.pos = some a)
    (hw : childWork order a () input s.saga.world = some (w', .answered answer))
    (hpick : PickedUp (statusOf (w'.orders order)) → PickedUp (s.status order)) :
    ∃ u, Reaches cfg order s u ∧ u.saga.world = w' ∧
      u.children order = some (.enter childWorker (Delivery.afterAnswer i.pos answer)) ∧
      u.parent order = s.parent order := by
  have hpend : Delivery.flow.pending i.pos = some a := ha
  obtain ⟨s₁, h₁, hw₁, hc₁, hp₁⟩ := reaches_child (m := .lose) hs hi (.inl rfl) trivial (by rintro ⟨⟩)
    (show _ = some (s.saga.world, .enter childWorker i.pos) by simp [move, hpend]) id
  have hwork : childWorker.work order a childWorker.first input s.saga.world =
      some (w', .answered answer) := hw
  obtain ⟨s₂, h₂, hw₂, hc₂, hp₂⟩ := reaches_child (m := .work input) (h₁.legally hs) hc₁
    (.inl rfl) trivial (by rintro ⟨⟩)
    (show _ = some (w', ⟨i.pos, .answered answer⟩) by simp [move, hpend, hw₁, hwork])
    (fun hp => h₁.picked.mpr (hpick hp))
  have hst₂ : PickedUp (statusOf (w'.orders order)) → PickedUp (s₂.status order) := by
    rw [System.status, hw₂]
    exact id
  obtain ⟨s₃, h₃, hw₃, hc₃, hp₃⟩ := reaches_child (m := .report) ((h₁.trans h₂).legally hs) hc₂
    (.inl rfl) (fun _ href => by rw [hc₂] at href; cases href) (by rintro ⟨⟩)
    (show _ = some (w', .enter childWorker (Delivery.afterAnswer i.pos answer)) by
      simp [move, Delivery.flow, ha, hw₂]) hst₂
  exact ⟨s₃, (h₁.trans h₂).trans h₃, hw₃, hc₃, hp₃.trans (hp₂.trans hp₁)⟩

/-- A running child can be cancelled. -/
theorem cancel_of_open {p : Delivery.Pos} (hend : endOf p.pc = none) (hpc : p.pc ≠ .cancelDispatch) :
    ∃ p', Delivery.cancel p = some p' := by
  unfold Delivery.cancel
  cases h : p.pc with
  | cancelDispatch => exact absurd h hpc
  | returned result => rw [h] at hend; cases result <;> cases hend
  | failed => rw [h] at hend; cases hend
  | cancelled => rw [h] at hend; cases hend
  | _ => exact ⟨_, rfl⟩

/-- **A child that is told to stop can end.** -/
theorem child_stops (hs : Legally cfg order s) (hpc : (s.parent order).pos.pc = .drainChild) :
    ∃ u i how, Reaches cfg order s u ∧ u.children order = some i ∧
      endOf i.pos.pc = some how ∧ u.parent order = s.parent order := by
  obtain ⟨is, his⟩ := id hs
  have hborn := (steady_of_run his).born (by rw [hpc]; exact .inr (.inr (.inr (.inl rfl))))
  obtain ⟨i, hi⟩ := Option.ne_none_iff_exists'.mp hborn
  have hclean : ∀ {r : System} {i : Child}, Reaches cfg order s r →
      r.children order = some i → r.parent order = s.parent order → i.pos.pc = .cancelDispatch →
      ∃ u i how, Reaches cfg order s u ∧ u.children order = some i ∧
        endOf i.pos.pc = some how ∧ u.parent order = s.parent order := by
    intro r i hr hi hp hpc
    have ha : Delivery.activity i.pos = some .cancelDispatch := by simp [Delivery.activity, hpc]
    obtain ⟨u, hu, -, hc, hp'⟩ := child_answered ⟨0, .cancelled⟩ (hr.legally hs)
      hi ha rfl id
    refine ⟨u, _, .cancelled, hr.trans hu, hc, ?_, hp'.trans hp⟩
    simp [Delivery.afterAnswer, hpc, endOf]
  by_cases hcd : i.pos.pc = .cancelDispatch
  · exact hclean .refl hi rfl hcd
  cases hend : endOf i.pos.pc with
  | some how => exact ⟨s, i, how, .refl, hi, hend, rfl⟩
  | none =>
    obtain ⟨p', hp'⟩ := cancel_of_open hend hcd
    obtain ⟨u, hu, -, hc, hp⟩ := reaches_child (m := .event .cancel) hs hi (.inl rfl) trivial
      (fun _ => by rw [hpc]; rfl)
      (show _ = some (s.saga.world, .enter childWorker p') by
        simp [move, Delivery.flow, Delivery.afterWait, hp']) id
    have hpc' := Delivery.cancel_pc hp'
    by_cases hwaits : i.pos.pc.waits = true
    · rw [if_pos hwaits] at hpc'
      exact hclean hu hc hp hpc'
    · rw [if_neg hwaits] at hpc'
      exact ⟨u, _, .failed, hu, hc, by rw [Inst.enter_pos, hpc']; rfl, hp⟩

/-- A child that stands at DELIVERED, or a step before it. -/
theorem child_marks_delivered {i : Child} (hs : Legally cfg order s)
    (hi : s.children order = some i) (hpc : i.pos.pc = .markDelivered) :
    ∃ u i, Reaches cfg order s u ∧ u.children order = some i ∧
      endOf i.pos.pc = some .delivered ∧ u.parent order = s.parent order := by
  obtain ⟨is, his⟩ := id hs
  have hrides := (refereed_of_run his order).rides i hi
  rw [hpc] at hrides
  have ha : Delivery.activity i.pos = some .markDelivered := by simp [Delivery.activity, hpc]
  obtain ⟨w', t, hw⟩ : ∃ w' t, mark s.saga.world order .delivered 0 = (w', t) := ⟨_, _, rfl⟩
  have ht : t = .answered .done := by
    rcases mark_spec hw with ⟨-, -, ht⟩ | ⟨-, -, h1, h2⟩
    · exact ht
    · exact absurd hrides.1 (not_or_intro h1 h2)
  subst ht
  have hwork : childWork order .markDelivered () ⟨0, .ok⟩ s.saga.world =
      some (w', .answered .done) := congrArg some hw
  obtain ⟨u, hu, -, hc, hp⟩ := child_answered ⟨0, .ok⟩ hs hi ha hwork fun _ => hrides.1.imp id .inl
  refine ⟨u, _, hu, hc, ?_, hp⟩
  simp [Delivery.afterAnswer, hpc, endOf]

/-- The courier delivers. -/
theorem child_awaits_delivered {i : Child} {rider : RiderId} (hs : Legally cfg order s)
    (hi : s.children order = some i) (hpc : i.pos.pc = .awaitDelivered rider) :
    ∃ u i, Reaches cfg order s u ∧ u.children order = some i ∧
      endOf i.pos.pc = some .delivered ∧ u.parent order = s.parent order := by
  obtain ⟨is, his⟩ := id hs
  have hst : s.status order = some .pickedUp := by
    have hrides := (refereed_of_run his order).rides i hi
    rw [hpc] at hrides
    exact hrides
  have hpick : PickedUp (s.status order) := .inl hst
  let pos : Delivery.Pos := Delivery.note i.pos (.signal (.courierDelivered rider))
  obtain ⟨s₁, h₁, hw₁, hc₁, hp₁⟩ := reaches_child
    (m := .signal (.signal (.courierDelivered rider))) hs hi (.inr hpick) trivial (by rintro ⟨⟩)
    (show _ = some (s.saga.world, ⟨pos, i.attempt⟩) from rfl) fun _ => hpick
  have hwake : Delivery.afterWait pos .wake = some { pos with pc := .markDelivered } := by
    simp [Delivery.afterWait, pos, hpc, Delivery.note, CourierSignals.raise]
  obtain ⟨s₂, h₂, -, hc₂, hp₂⟩ := reaches_child (m := .event .wake) (h₁.legally hs) hc₁
    (.inr (h₁.picked.mpr hpick)) trivial (by rintro ⟨⟩)
    (show _ = some (s₁.saga.world, .enter childWorker { pos with pc := .markDelivered }) by
      simp [move, Delivery.flow, hwake]) id
  obtain ⟨u, j, hu, hj, hend, hp⟩ := child_marks_delivered ((h₁.trans h₂).legally hs) hc₂ rfl
  exact ⟨u, j, (h₁.trans h₂).trans hu, hj, hend, hp.trans (hp₂.trans hp₁)⟩

/-- **After a cancel that was too late, the child can deliver.** -/
theorem child_delivers (hs : Legally cfg order s) (hpc : (s.parent order).pos.pc = .awaitChild) :
    ∃ u i, Reaches cfg order s u ∧ u.children order = some i ∧
      endOf i.pos.pc = some .delivered ∧ u.parent order = s.parent order := by
  obtain ⟨is, his⟩ := id hs
  have hst := steady_of_run his
  have hpick : PickedUp (s.status order) := hst.late (.inl hpc)
  obtain ⟨i, hi⟩ := Option.ne_none_iff_exists'.mp
    (hst.born (by rw [hpc]; exact .inr (.inr (.inr (.inr rfl)))))
  have hrides := (refereed_of_run his order).rides i hi
  have hlive : dying i.pos.pc ≠ true := by
    intro hd
    rcases hst.dying i hi hd with hover | hen
    · rcases hover with ho | ho <;> rw [ho] at hpick <;> exact absurd hpick (by decide)
    · rw [hpc] at hen
      cases hen
  cases hcpc : i.pos.pc with
  | markPickedUp rider =>
    rw [hcpc] at hrides
    have hst : statusOf (s.saga.world.orders order) = some .pickedUp :=
      hrides.1.resolve_left (not_not_intro hpick)
    have ha : Delivery.activity i.pos = some .markPickedUp := by simp [Delivery.activity, hcpc]
    obtain ⟨w', t, hw⟩ : ∃ w' t, mark s.saga.world order .pickedUp 0 = (w', t) := ⟨_, _, rfl⟩
    have ht : t = .answered .done := by
      rcases mark_spec hw with ⟨-, -, ht⟩ | ⟨-, -, -, h2⟩
      · exact ht
      · exact absurd hst h2
    subst ht
    have hwork : childWork order .markPickedUp () ⟨0, .ok⟩ s.saga.world =
        some (w', .answered .done) := congrArg some hw
    obtain ⟨r, hr, -, hc, hp⟩ := child_answered ⟨0, .ok⟩ hs hi ha hwork fun _ => hpick
    have hrpc : (Inst.enter childWorker (Delivery.afterAnswer i.pos .done)).pos.pc =
        .awaitDelivered rider := by
      simp [Delivery.afterAnswer, hcpc]
    obtain ⟨u, j, hu, hj, hend, hp'⟩ := child_awaits_delivered (hr.legally hs) hc hrpc
    exact ⟨u, j, hr.trans hu, hj, hend, hp'.trans hp⟩
  | awaitDelivered rider => exact child_awaits_delivered hs hi hcpc
  | markDelivered => exact child_marks_delivered hs hi hcpc
  | returned result =>
    cases result with
    | delivered => exact ⟨s, i, .refl, hi, by rw [hcpc]; rfl, rfl⟩
    | noRider => rw [hcpc] at hrides; exact absurd hpick hrides
  | cancelDispatch => rw [hcpc] at hlive; exact absurd rfl hlive
  | failed => rw [hcpc] at hlive; exact absurd rfl hlive
  | cancelled => rw [hcpc] at hlive; exact absurd rfl hlive
  | _ => rw [hcpc] at hrides; exact absurd hpick hrides

/-- The parent hears of the end of its child. -/
theorem reaches_told {i : Child} {how : Workflow.ChildEnd} (hs : Legally cfg order s)
    (hi : s.children order = some i) (hend : endOf i.pos.pc = some how) :
    ∃ u, Reaches cfg order s u ∧ u.saga.world = s.saga.world ∧
      u.parent order = ⟨Workflow.onSignal (s.parent order).pos (.childEnded how),
        (s.parent order).attempt⟩ ∧ u.children order = s.children order := by
  refine reaches_parent (m := .signal (.childEnded how)) hs rfl trivial ?_ rfl
  show (s.children order).bind _ = some how
  rw [hi]
  exact hend

end

/-! ### A cancelled order ends -/

/-- The awaits before the end, at most. -/
def distance : Workflow.Pc → ℕ
  | .createOrder => 19
  | .forward .placed => 18
  | .forward .validated => 17
  | .forward .paymentCleared => 16
  | .awaitDecision => 15
  | .startChild => 14
  | .markAccepted => 13
  | .awaitDelivery => 12
  | .customerCancel => 11
  | .drainChild => 10
  | .awaitChild => 10
  | .noRiderCancel => 9
  | .cancelDispatch => 8
  | .beginCancel _ _ _ _ => 7
  | .voidAuthorization _ _ => 6
  | .releaseReservation _ => 5
  | .finishCancel _ => 4
  | .capturePayment => 3
  | .settleOrder => 2
  | .returned _ | .failed => 0

section

variable {cfg : Config} {s u : System} {order : OrderId} {pc : Workflow.Pc}
  {answer : Workflow.Answer}

theorem distance_afterAnswer (ha : Workflow.activity pc ≠ none) :
    distance (Workflow.afterAnswer pc answer) < distance pc := by
  have hleads := Workflow.leads answer ha
  generalize Workflow.afterAnswer pc answer = next at hleads ⊢
  cases hleads <;> simp [distance]

/-- Where the guards of the next await can be missed. -/
theorem guard_of_afterAnswer (answer : Workflow.Answer) (ha : Workflow.activity pc ≠ none) :
    Workflow.afterAnswer pc answer ≠ .markAccepted ∧
      ∀ expected reason void release,
        Workflow.afterAnswer pc answer = .beginCancel expected reason void release →
        answer ≠ .ok ∧ (pc = .forward .placed ∧ expected = .placed ∨ pc = .forward .validated) := by
  have hleads := Workflow.leads answer ha
  generalize Workflow.afterAnswer pc answer = next at hleads ⊢
  cases hleads <;> simp_all

/-- The workflow has heard the customer's cancel, goes on, and need not fail. -/
structure OnWay (cfg : Config) (order : OrderId) (s : System) : Prop where
  legally : Legally cfg order s
  heard : (s.parent order).pos.cancelRequested = true
  granted : ¬ Doomed (s.parent order) (s.status order)

/-- The workflow is nearer to its end, or there. -/
structure Nearer (cfg : Config) (order : OrderId) (s u : System) : Prop where
  reaches : Reaches cfg order s u
  heard : (u.parent order).pos.cancelRequested = true
  granted : ¬ Doomed (u.parent order) (u.status order)
  alive : (u.parent order).pos.pc ≠ .failed
  distance : distance (u.parent order).pos.pc < distance (s.parent order).pos.pc

/-- A new await is granted its guard, but for those that the workflow expects. -/
theorem granted_of_legally (hs : Legally cfg order s)
    (hb : ∀ expected reason void release,
      (s.parent order).pos.pc = .beginCancel expected reason void release →
      s.status order = some expected)
    (hm : (s.parent order).pos.pc = .markAccepted → s.status order = some .confirmed) :
    ¬ Doomed (s.parent order) (s.status order) := by
  rintro ⟨-, hg⟩
  obtain ⟨is, his⟩ := hs
  by_cases hmark : (s.parent order).pos.pc = .markAccepted
  · rw [hmark] at hg
    exact hg (.inl (hm hmark))
  by_cases hbegin : ∃ expected reason void release,
      (s.parent order).pos.pc = .beginCancel expected reason void release
  · obtain ⟨expected, reason, void, release, hpc⟩ := hbegin
    rw [hpc] at hg
    exact hg (.inl (hb _ _ _ _ hpc))
  · exact hg (grants_of_fits (fits_of_run his order).1 (refereed_of_run his order)
      (fun e r v l he => hbegin ⟨e, r, v, l, he⟩) hmark)

/-- An activity is answered. -/
theorem OnWay.activity {a : Workflow.Activity} (h : OnWay cfg order s)
    (ha : Workflow.activity (s.parent order).pos.pc = some a) :
    ∃ u, Nearer cfg order s u := by
  obtain ⟨u, answer, hu, hpar, -, hok⟩ := attempt_answered h.legally ha h.granted
  have hpos : (u.parent order).pos = (s.parent order).pos := by rw [hpar]
  obtain ⟨r, hr, hw, hparr, -⟩ := reaches_report (hu.legally h.legally) (by rw [hpos]; exact ha)
    (by rw [hpar])
  have hne : Workflow.activity (s.parent order).pos.pc ≠ none := by rw [ha]; simp
  have hpc : (r.parent order).pos.pc = Workflow.afterAnswer (s.parent order).pos.pc answer := by
    rw [hparr, hpos]
    rfl
  have hsr : Reaches cfg order s r := hu.trans hr
  obtain ⟨hmark, hbegin⟩ := guard_of_afterAnswer answer hne
  refine ⟨r, hsr, ?_, granted_of_legally (hsr.legally h.legally) ?_ ?_, ?_, ?_⟩
  · rw [hparr, hpos]
    exact h.heard
  · intro expected reason void release hb
    obtain ⟨hno, hat⟩ := hbegin expected reason void release (hpc ▸ hb)
    rcases hat with ⟨hat, rfl⟩ | hat
    · -- the reservation was refused, so the row is still at PLACED
      obtain ⟨is, his⟩ := hu.legally h.legally
      obtain ⟨js, hjs⟩ := saga_run his
      have hstock := stocked_of_run hjs order (by
        rw [show (u.saga.insts order).pos = (s.parent order).pos from hpos]; exact hat)
      rw [System.status, hw]
      exact hstock.2 answer hno (by rw [show u.saga.insts order = u.parent order from rfl, hpar])
    · rw [hat] at ha
      exact absurd (hok (Option.some.inj ha).symm) hno
  · intro hm
    exact absurd (hpc ▸ hm) hmark
  · rw [hpc]
    exact (afterAnswer_failed answer hne).1
  · rw [hpc]
    exact distance_afterAnswer hne

/-- A wait ends. -/
theorem OnWay.wake {pos : Workflow.Pos} (h : OnWay cfg order s) (hu : Reaches cfg order s u)
    (hheard : (u.parent order).pos.cancelRequested = true)
    (he : Workflow.afterWait (u.parent order).pos .wake = some pos)
    (hb : ∀ expected reason void release, pos.pc = .beginCancel expected reason void release →
      u.status order = some expected)
    (hm : pos.pc ≠ .markAccepted) (hf : pos.pc ≠ .failed)
    (hd : distance pos.pc < distance (s.parent order).pos.pc) :
    ∃ r, Nearer cfg order s r := by
  obtain ⟨r, hr, hw, hpar, -⟩ := reaches_wake (hu.legally h.legally) he
  have hsr := hu.trans hr
  have hpos : (r.parent order).pos = pos := by rw [hpar]; rfl
  refine ⟨r, hsr, ?_, granted_of_legally (hsr.legally h.legally) ?_ ?_, ?_, ?_⟩
  · rw [hpos, (Workflow.ends he).2.2]
    exact hheard
  · rw [hpos, System.status, hw]
    exact hb
  · rw [hpos]
    exact fun hpc => absurd hpc hm
  · rw [hpos]; exact hf
  · rw [hpos]; exact hd

/-- The child's end is known, and it was not a failure. -/
theorem OnWay.childEnded {how : Workflow.ChildEnd} (h : OnWay cfg order s)
    (hu : Reaches cfg order s u) (hheard : (u.parent order).pos.cancelRequested = true)
    (hat : (u.parent order).pos.pc = .awaitDelivery ∨ (u.parent order).pos.pc = .awaitChild)
    (hd : 10 ≤ distance (s.parent order).pos.pc)
    (hchild : (u.parent order).pos.child = some how) : ∃ r, Nearer cfg order s r := by
  obtain ⟨is, his⟩ := hu.legally h.legally
  have halive := (steady_of_run his).alive (refereed_of_run his order) (fits_of_run his order).1 hat
  have he : Workflow.afterWait (u.parent order).pos .wake =
      some { (u.parent order).pos with pc := Workflow.afterChild how } := by
    rcases hat with hat | hat <;> simp [Workflow.afterWait, hat, hchild]
  cases how with
  | delivered =>
    have hlt : distance .capturePayment < 10 := by decide
    exact h.wake hu hheard he (by rintro _ _ _ _ ⟨⟩) (by rintro ⟨⟩) (by rintro ⟨⟩)
      (hlt.trans_le hd)
  | noRider =>
    have hlt : distance .noRiderCancel < 10 := by decide
    exact h.wake hu hheard he (by rintro _ _ _ _ ⟨⟩) (by rintro ⟨⟩) (by rintro ⟨⟩)
      (hlt.trans_le hd)
  | failed => exact absurd (.inl hchild) halive
  | cancelled => exact absurd (.inr hchild) halive

/-- The child's end is reported. -/
theorem OnWay.hears {i : Child} {how : Workflow.ChildEnd} (h : OnWay cfg order s)
    (hu : Reaches cfg order s u) (hi : u.children order = some i)
    (hend : endOf i.pos.pc = some how) (hp : u.parent order = s.parent order)
    (hnone : (s.parent order).pos.child = none) :
    ∃ r, Reaches cfg order s r ∧ (r.parent order).pos.pc = (s.parent order).pos.pc ∧
      (r.parent order).pos.cancelRequested = true ∧
      (r.parent order).pos.child = some how := by
  obtain ⟨r, hr, -, hpar, -⟩ := reaches_told (hu.legally h.legally) hi hend
  have hpos : (r.parent order).pos = Workflow.onSignal (s.parent order).pos (.childEnded how) := by
    rw [hpar, hp]
  refine ⟨r, hu.trans hr, ?_, ?_, ?_⟩
  · rw [hpos, Workflow.onSignal_pc]
  · rw [hpos]
    exact h.heard
  · rw [hpos]
    simp [Workflow.onSignal, hnone]

/-- The child is started. -/
theorem OnWay.start (h : OnWay cfg order s) (hpc : (s.parent order).pos.pc = .startChild) :
    ∃ r, Nearer cfg order s r := by
  obtain ⟨u, hu, hborn, hp, hst⟩ : ∃ u, Reaches cfg order s u ∧ (u.children order).isSome = true ∧
      u.parent order = s.parent order ∧ u.status order = s.status order := by
    cases hc : s.children order with
    | some i => exact ⟨s, .refl, by rw [hc]; rfl, rfl, rfl⟩
    | none =>
      have hstep : Joint.step cfg s (.spawn order) = some { s with
          children := Function.update s.children order (some (.enter childWorker {})) } := by
        simp [Joint.step, hpc, hc]
      exact ⟨_, .step h.legally hstep trivial (.inl rfl) id, by simp, rfl, rfl⟩
  obtain ⟨r, hr, hw, hpar, -⟩ := reaches_parent (m := .event .childStarted)
    (hu.legally h.legally) rfl trivial hborn
    (show _ = some (u.saga.world, .enter (Saga.worker cfg)
        { (s.parent order).pos with pc := .markAccepted }) by
      simp [move, Workflow.flow, Workflow.afterWait, hp, hpc])
  have hsr := hu.trans hr
  have hpos : (r.parent order).pos = { (s.parent order).pos with pc := .markAccepted } := by
    rw [hpar]; rfl
  have hconf : r.status order = some .confirmed := by
    obtain ⟨is, his⟩ := h.legally
    have hf := (fits_of_run his order).1
    rw [hpc] at hf
    rw [System.status, hw]
    exact hst.trans hf
  refine ⟨r, hsr, ?_, granted_of_legally (hsr.legally h.legally) ?_ fun _ => hconf, ?_, ?_⟩
  · rw [hpos]
    exact h.heard
  · rw [hpos]
    rintro _ _ _ _ ⟨⟩
  · rw [hpos]
    rintro ⟨⟩
  · rw [hpos, hpc]
    simp [distance]

/-- **A workflow that has heard the cancel goes on**, nearer to its end. -/
theorem leaves (h : OnWay cfg order s) (hopen : ended (s.parent order).pos.pc = false) :
    ∃ u, Nearer cfg order s u := by
  obtain ⟨is, his⟩ := id h.legally
  have hf := (fits_of_run his order).1
  cases ha : Workflow.activity (s.parent order).pos.pc with
  | some a => exact h.activity ha
  | none =>
    have hflag := h.heard
    cases hpc : (s.parent order).pos.pc with
    | awaitDecision =>
      rw [hpc] at hf
      have he : Workflow.afterWait (s.parent order).pos .wake = some { (s.parent order).pos with
          pc := .beginCancel .confirmed .customerCancelled true true } := by
        simp [Workflow.afterWait, Workflow.afterDecision, hpc, hflag]
      refine h.wake .refl hflag he ?_ (by rintro ⟨⟩) (by rintro ⟨⟩) (by simp [hpc, distance])
      rintro expected reason void release hb
      cases hb
      exact hf
    | startChild => exact h.start hpc
    | awaitDelivery =>
      cases hchild : (s.parent order).pos.child with
      | some how =>
        exact h.childEnded .refl hflag (.inl hpc) (by rw [hpc]; decide) hchild
      | none =>
        have he : Workflow.afterWait (s.parent order).pos .wake =
            some { (s.parent order).pos with pc := .customerCancel } := by
          simp [Workflow.afterWait, hpc, hchild, hflag]
        exact h.wake .refl hflag he (by simp) (by simp) (by simp) (by simp [hpc, distance])
    | drainChild =>
      have hdrain : ∀ {r : System} {how}, Reaches cfg order s r →
          (r.parent order).pos.pc = .drainChild → (r.parent order).pos.cancelRequested = true →
          (r.parent order).pos.child = some how → ∃ u, Nearer cfg order s u := by
        intro r how hr hrpc hrflag hrchild
        have he : Workflow.afterWait (r.parent order).pos .wake = some { (r.parent order).pos with
            pc := .voidAuthorization .customerCancelled true } := by
          simp [Workflow.afterWait, hrpc, hrchild, Workflow.unwind]
        exact h.wake hr hrflag he (by simp) (by simp) (by simp) (by simp [hpc, distance])
      cases hchild : (s.parent order).pos.child with
      | some how => exact hdrain .refl hpc hflag hchild
      | none =>
        obtain ⟨u, i, how, hu, hi, hend, hp⟩ := child_stops h.legally hpc
        obtain ⟨r, hr, hrpc, hrflag, hrchild⟩ := h.hears hu hi hend hp hchild
        exact hdrain hr (hrpc.trans hpc) hrflag hrchild
    | awaitChild =>
      cases hchild : (s.parent order).pos.child with
      | some how =>
        exact h.childEnded .refl hflag (.inr hpc) (by rw [hpc]; decide) hchild
      | none =>
        obtain ⟨u, i, hu, hi, hend, hp⟩ := child_delivers h.legally hpc
        obtain ⟨r, hr, hrpc, hrflag, hrchild⟩ := h.hears hu hi hend hp hchild
        exact h.childEnded hr hrflag (.inr (hrpc.trans hpc)) (by rw [hpc]; decide) hrchild
    | returned result => rw [hpc] at hopen; cases hopen
    | failed => rw [hpc] at hopen; cases hopen
    | _ => rw [hpc] at ha; cases ha

/-- **And so it can end**, and not by a failure. -/
theorem can_end (h : OnWay cfg order s) (hlive : (s.parent order).pos.pc ≠ .failed) :
    ∃ u, Reaches cfg order s u ∧ ∃ result, (u.parent order).pos.pc = .returned result := by
  -- by the distance to the end
  induction hn : distance (s.parent order).pos.pc using Nat.strong_induction_on generalizing s with
  | _ n ih =>
    cases hopen : ended (s.parent order).pos.pc with
    | true =>
      rcases ended_iff.mp hopen with hret | hfail
      · exact ⟨s, .refl, hret⟩
      · exact absurd hfail hlive
    | false =>
      obtain ⟨r, hr⟩ := leaves h hopen
      obtain ⟨u, hu, hret⟩ := ih _ (hn ▸ hr.distance)
        ⟨hr.reaches.legally h.legally, hr.heard, hr.granted⟩ hr.alive rfl
      exact ⟨u, hr.reaches.trans hu, hret⟩

end

/-! ### The pickup on the record -/

/-- The row has reached PICKED_UP. -/
def Left (order : OrderId) (s : System) : Prop :=
  ∃ r, s.saga.world.orders order = some r ∧ (r.milestones .pickedUp).isSome = true

/-- The order has no cancellation record. -/
def Unrecorded (order : OrderId) (s : System) : Prop :=
  ∀ r, s.saga.world.orders order = some r → r.cancellation = none

section

variable {cfg : Config} {s u : System} {order : OrderId}

/-- The milestone of the pickup is stamped on the way through it, and only there. -/
theorem milestone_effect {now : ℕ} {row row' : Option OrderRow}
    (h : Lifecycle.Effect now row row')
    (hI : ∀ r, row = some r → ((r.milestones .pickedUp).isSome = true ↔ PickedUp (some r.status))) :
    ∀ r, row' = some r → ((r.milestones .pickedUp).isSome = true ↔ PickedUp (some r.status)) := by
  cases h with
  | same => exact hI
  | placed =>
    rintro r ⟨⟩
    simp [OrderRow.place, PickedUp]
  | @rider r rider =>
    rintro r' ⟨⟩
    exact hI r rfl
  | @applied q r' target h =>
    rintro r ⟨⟩
    obtain ⟨reason, hedge, -⟩ := h
    have hq := hI q rfl
    rw [Lifecycle.announce_milestones, announce_status]
    show ((if isMilestone target then Function.update q.milestones target (some now)
      else q.milestones) .pickedUp).isSome = true ↔ PickedUp (some target)
    by_cases ht : target = .pickedUp
    · subst ht
      simp [isMilestone, PickedUp]
    · have hsame : (if isMilestone target then Function.update q.milestones target (some now)
          else q.milestones) .pickedUp = q.milestones .pickedUp := by
        split
        · exact Function.update_of_ne (Ne.symm ht) _ _
        · rfl
      rw [hsame, hq]
      rcases hedge with hfwd | ⟨hbefore, rfl⟩ | ⟨hst, rfl⟩
      · rcases hst : q.status <;> rw [hst] at hfwd <;> cases hfwd <;>
          first | exact absurd rfl ht | simp [PickedUp]
      · rcases hst : q.status <;> rw [hst] at hbefore <;>
          first | exact absurd hbefore (by decide) | simp [PickedUp]
      · rw [hst]
        simp [PickedUp]

theorem milestone_of_written {row : Option OrderRow} (h : Lifecycle.Written row) :
    ∀ r, row = some r → ((r.milestones .pickedUp).isSome = true ↔ PickedUp (some r.status)) := by
  obtain ⟨ws, hist, hrun, rfl⟩ := h
  induction hrun with
  | nil => exact fun r h => by cases (h : none = some r)
  | @snoc ws hist hist' w _ _ hs ih =>
    cases hs
    exact milestone_effect (Lifecycle.effect_write w.writer) ih

/-- The courier has left with the food exactly if the row has reached PICKED_UP, and then
there is no cancellation record. -/
theorem left_iff (hs : Legally cfg order s) :
    (Left order s ↔ PickedUp (s.status order)) ∧ (Left order s → Unrecorded order s) := by
  obtain ⟨is, his⟩ := hs
  obtain ⟨js, hjs⟩ := saga_run his
  have hwritten := Lifecycle.written_of_run hjs order
  have hmile := milestone_of_written hwritten
  have hiff : Left order s ↔ PickedUp (s.status order) := by
    constructor
    · rintro ⟨r, hr, hm⟩
      rw [System.status, hr]
      exact (hmile r hr).mp hm
    · intro hp
      cases hr : s.saga.world.orders order with
      | none =>
        rw [System.status, hr] at hp
        exact absurd hp (by decide)
      | some r =>
        rw [System.status, hr] at hp
        exact ⟨r, hr, (hmile r hr).mpr hp⟩
  refine ⟨hiff, fun hleft r hr => ?_⟩
  obtain ⟨ws, hist, hrun, hrow⟩ := hwritten
  have hcancel := ((Lifecycle.lifecycle_of_run hrun).2 r (hrow.trans hr)).1.cancellation
  have hp := hiff.mp hleft
  rw [System.status, hr] at hp
  cases hc : r.cancellation with
  | none => rfl
  | some record =>
    rw [hc] at hcancel
    rcases hcancel.mp rfl with hst | hst <;> rw [statusOf_some, hst] at hp <;>
      exact absurd hp (by decide)

/-- How a workflow that has heard the cancel may have ended: cancelled, if the courier had
not left, and else settled, or failed because payment refused the capture. -/
def EndsWell (order : OrderId) (s : System) : Prop :=
  (¬ Left order s → (s.parent order).pos.pc = .returned .cancelled ∧
    s.status order = some .cancelled) ∧
  (Left order s → Unrecorded order s ∧
    ((s.parent order).pos.pc = .returned .settled ∧ s.status order = some .settled ∨
      (s.parent order).pos.pc = .failed ∧ s.status order = some .delivered ∧
        Done (s.executed order) .capturePayment))

theorem endsWell_of_closed (hs : Legally cfg order s)
    (hclosed : (s.parent order).pos.pc.Closed) : EndsWell order s := by
  obtain ⟨hleft, hrec⟩ := left_iff hs
  obtain ⟨is, his⟩ := hs
  have hf := (fits_of_run his order).1
  have hpicked : ∀ {st}, s.status order = some st → (Left order s ↔ PickedUp (some st)) :=
    fun hst => by rw [hleft, hst]
  rcases hclosed with ⟨result, hpc⟩ | hpc
  · rw [hpc] at hf
    cases result with
    | cancelled =>
      exact ⟨fun _ => ⟨hpc, hf⟩, fun hl => absurd ((hpicked hf).mp hl) (by decide)⟩
    | settled =>
      exact ⟨fun hn => absurd ((hpicked hf).mpr (by decide)) hn,
        fun hl => ⟨hrec hl, .inl ⟨hpc, hf⟩⟩⟩
  · obtain ⟨hst, hdone⟩ := (steady_of_run his).failed hpc
    exact ⟨fun hn => absurd ((hpicked hst).mpr (by decide)) hn,
      fun hl => ⟨hrec hl, .inr ⟨hpc, hst, hdone⟩⟩⟩

/-- The contract of a submitted cancel: the workflow has ended as it should, or it can
end so by its own steps (and, once the courier has left, the courier's), or its next
activity can only fail with IllegalTransition. -/
structure Honoured (cfg : Config) (order : OrderId) (s : System) : Prop where
  ended : (s.parent order).pos.pc.Closed → EndsWell order s
  ends : ¬ (s.parent order).pos.pc.Closed →
    (∃ js u, Run (step cfg) (Alone order) s js u ∧
      (¬ Left order s ∧ (u.parent order).pos.pc = .returned .cancelled ∧
          u.status order = some .cancelled ∨
        Left order s ∧ (u.parent order).pos.pc = .returned .settled ∧
          u.status order = some .settled ∧ Unrecorded order u)) ∨
    Doomed (s.parent order) (s.status order) ∧
      ∀ js u, Run (step cfg) (Legal order) s js u → ¬ (u.parent order).pos.pc.Closed

theorem honoured_of_heard (hs : Legally cfg order s)
    (hheard : (s.parent order).pos.cancelRequested = true) : Honoured cfg order s := by
  refine ⟨endsWell_of_closed hs, fun hopen => ?_⟩
  by_cases hd : Doomed (s.parent order) (s.status order)
  · obtain ⟨is, his⟩ := hs
    exact .inr ⟨hd, fun js u hrun => (doomed_run his hd hrun).2⟩
  · left
    obtain ⟨u, hu, result, hret⟩ := can_end ⟨hs, hheard, hd⟩ fun hf => hopen (.inr hf)
    obtain ⟨js, hjs⟩ := hu.run
    have hleft : Left order u ↔ Left order s := by
      rw [(left_iff (hu.legally hs)).1, (left_iff hs).1, hu.picked]
    obtain ⟨hcancelled, hsettled⟩ := endsWell_of_closed (hu.legally hs) (.inl ⟨result, hret⟩)
    refine ⟨js, u, hjs, ?_⟩
    by_cases hl : Left order u
    · obtain ⟨hrec, ⟨hpc, hst⟩ | ⟨hpc, -⟩⟩ := hsettled hl
      · exact .inr ⟨hleft.mp hl, hpc, hst, hrec⟩
      · rw [hret] at hpc
        cases hpc
    · obtain ⟨hpc, hst⟩ := hcancelled hl
      exact .inl ⟨fun h => hl (hleft.mpr h), hpc, hst⟩

/-- The flag stays. -/
theorem heard_step {l : Label} (hs : step cfg s l = some u)
    (h : (s.parent order).pos.cancelRequested = true) :
    (u.parent order).pos.cancelRequested = true := by
  rcases seen order hs with
    ⟨m, i', -, -, hm, hp, -⟩ | ⟨_, _, _, -, -, -, -, hp, -⟩ | ⟨-, -, -, -, hp, -⟩ |
    ⟨_, -, -, -, hp, -⟩ | ⟨-, -, -, -, hp, -⟩ | ⟨-, hp, -⟩ <;> rw [hp]
  · rcases move_cases hm with ⟨input, a, phase, t, -, -, -, -, rfl⟩ | ⟨-, hrest⟩
    · exact h
    · rcases hrest with ⟨-, -, rfl⟩ | ⟨a, answer, -, -, -, rfl⟩ | ⟨a, -, -, -, rfl⟩ |
        ⟨a, -, -, hb, rfl⟩ | ⟨n, -, rfl⟩ | ⟨e, pos, -, he, rfl⟩
      · exact h
      · exact h
      · exact h
      · obtain ⟨stage, hpc⟩ := forward_of_deadline hb
        simpa [Workflow.flow, hpc] using h
      · cases n
        · exact h
        · rfl
        · exact h
      · rw [Inst.enter_pos, (Workflow.ends he).2.2]
        exact h
  · exact h
  · exact h
  · exact h
  · rfl
  · exact h

theorem heard_of_run {ok : System → Label → Prop} {js : List Label} (h : Run (step cfg) ok s js u)
    (hheard : (s.parent order).pos.cancelRequested = true) :
    (u.parent order).pos.cancelRequested = true :=
  h.invariant (I := fun t => (t.parent order).pos.cancelRequested = true) hheard
    fun _ _ _ hI _ hs => heard_step hs hI

/-- **A submitted cancel is honoured unless the courier won**, in every state from the
moment the signal is received on, whatever the workflow is doing then. -/
theorem cancel_honoured {s₁ s₂ : System} {is js : List Label} {pid : ℕ} {seen : OrderStatus}
    (h₁ : Run (step cfg) (Legal order) .empty is s₁)
    (hask : s₁.requests[pid]? = some ⟨order, .signal seen⟩)
    (hsignal : step cfg s₁ (.request pid) = some s₂)
    (hsubmitted : s₂.requests[pid]? = some ⟨order, .answered (.submitted seen)⟩)
    (h₂ : Run (step cfg) (Legal order) s₂ js s) : Honoured cfg order s := by
  have hheard : (s₂.parent order).pos.cancelRequested = true := by
    simp only [step, hask, requestStep] at hsignal
    split at hsignal
    · cases hsignal
      obtain ⟨hlt, -⟩ := List.getElem?_eq_some_iff.mp hask
      simp [setAsk, hlt] at hsubmitted
    · cases hsignal
      simp [System.parent, setAsk, signalCancel, hear, Workflow.onSignal]
  refine honoured_of_heard ⟨is ++ ([.request pid] ++ js), ?_⟩ (heard_of_run h₂ hheard)
  exact h₁.append (.cons trivial hsignal h₂)

end

/-! ### Runs -/

/-- A customer asks for the cancel, whose order is READY. -/
def asked : List Label :=
  upToDelivery "o" ++ upToRider "o" ++ [.ask "o" true, .request 0]

/-- The signal wins: the courier is told to stand down, and everything is undone. -/
def standDown : List Label :=
  [.parent "o" (.event .wake)] ++ once "o" ++ [.child "o" (.event .cancel)] ++
    childOnce "o" .cancelled ++
    [.parent "o" (.signal (.childEnded .cancelled)), .parent "o" (.event .wake)] ++
    once "o" ++ once "o" ++ once "o"

theorem cancel_honoured_cancelled : ∃ s₁ s₂ s,
    Run (step oneCart) (Legal "o") .empty asked s₁ ∧
    step oneCart s₁ (.request 0) = some s₂ ∧
    Run (step oneCart) (Legal "o") s₂ standDown s ∧
    (s.parent "o").pos.pc = .returned .cancelled ∧ Honoured oneCart "o" s := by
  obtain ⟨s₁, h₁, hp⟩ : ∃ s₁, Run (step oneCart) (Legal "o") .empty asked s₁ ∧
      decide (s₁.requests[0]? = some (Request.mk "o" (.signal .ready)) ∧
        ((step oneCart s₁ (.request 0)).bind fun s₂ =>
          (execOk (step oneCart) (Legal "o") s₂ standDown).map fun s =>
            (s₂.requests[0]?, (s.parent "o").pos.pc)) =
          some (some (Request.mk "o" (.answered (.submitted .ready))),
            .returned .cancelled)) = true :=
    exists_run_of_execOk (by decide)
  obtain ⟨hask, hrest⟩ := of_decide_eq_true hp
  obtain ⟨s₂, hsignal, hrest⟩ := Option.bind_eq_some_iff.mp hrest
  obtain ⟨s, hexec, hpair⟩ := Option.map_eq_some_iff.mp hrest
  obtain ⟨hsub, hpc⟩ := Prod.mk.inj hpair
  have h₂ := run_of_execOk hexec
  exact ⟨s₁, s₂, s, h₁, hsignal, h₂, hpc, cancel_honoured h₁ hask hsignal hsub h₂⟩

/-- The courier leaves before the signal arrives; the order is delivered, and payment has
no record of the hold any more. -/
def refusedAtTheEnd : List Label :=
  asked ++ upToPickup "o" ++ [.request 0, .parent "o" (.event .wake)] ++ once "o" ++
    childWakes "o" (.courierDelivered "c") ++ childOnce "o" .ok ++
    [.parent "o" (.signal (.childEnded .delivered)), .parent "o" (.event .wake),
      .parent "o" (.work ⟨0, .stateConflict⟩), .parent "o" .report]

/-- **Payment refuses the capture**: the cancel was submitted, the courier had won, and
the order does not continue to SETTLED, although no activity has failed with
IllegalTransition. -/
theorem capture_refused : ∃ s,
    Run (step oneCart) (Legal "o") .empty refusedAtTheEnd s ∧
    s.requests[0]? = some ⟨"o", .answered (.submitted .ready)⟩ ∧ Left "o" s ∧
    (s.parent "o").pos.pc = .failed ∧ s.status "o" = some .delivered := by
  obtain ⟨s, hs, hp⟩ : ∃ s, Run (step oneCart) (Legal "o") .empty refusedAtTheEnd s ∧
      decide (s.requests[0]? = some (Request.mk "o" (.answered (.submitted .ready))) ∧
        (s.parent "o").pos.pc = .failed ∧ s.status "o" = some .delivered) = true :=
    exists_run_of_execOk (by decide)
  obtain ⟨hsub, hpc, hst⟩ := of_decide_eq_true hp
  refine ⟨s, hs, hsub, (left_iff ⟨_, hs⟩).1.mpr ?_, hpc, hst⟩
  rw [hst]
  decide

end Joint

end Order
