/-
Repeated executions of the pickup revoke.

The activity `unassign_stalled` is executed at least once: an execution whose answer is lost, or
whose process stops, is followed by another one.

* `attempt` — one store call of one of the executions; an execution that stops makes no more;
* `Idempotent` — each execution answers what the first one answers, `already_picked_up` says that
  the rider has the food, and a rider who was revoked is free of the order;
* `Unrepeated` — a delivery that is still ASSIGNED to the rider is revoked by one execution only,
  and another one is the rider's, picked up;
* `idempotent_iff` — these are the schedules whose executions are idempotent.

The verdict is whether the write applied, and so a second execution takes the first one's write
for the rider's.
-/
import SmartFoodOps.Dispatch.Agreement
import SmartFoodOps.Dispatch.Taps

open Machine

namespace Dispatch

open RiderTap (transition_held transition_not_held finishDelivery_deliveries)

/-! ### Executions -/

/-- The store call that the execution `pid` makes next. -/
def attempt (s : Tables × List Op) (pid : ℕ) : Option (Tables × List Op) :=
  s.2[pid]?.bind fun op => (opStep 0 "" s.1 op).map fun (t, op') => (t, s.2.set pid op')

/-- `n` executions, none of which has made a call. -/
def attempts (t : Tables) (n : ℕ) (order : OrderId) (rider : RiderId) : Tables × List Op :=
  (t, List.replicate n (Call.unassignStalled order rider).begin)

/-- The rider has taken the food. -/
def Collected (t : Tables) (order : OrderId) (rider : RiderId) : Prop :=
  RiderTap.Held (t.deliveries order) rider .pickedUp ∨ RiderTap.Held (t.deliveries order) rider .delivered

/-- What is promised of the executions that were started on the tables `t`. -/
structure Idempotent (t : Tables) (order : OrderId) (rider : RiderId) (s : Tables × List Op) :
    Prop where
  verdict : ∀ outcome, .answered outcome ∈ s.2 → outcome = (unassignStalled t order rider).2
  pickedUp : .answered .alreadyPickedUp ∈ s.2 → Collected s.1 order rider
  revoked : .answered .revoked ∈ s.2 → ¬ s.1.Active rider order

/-- At most one execution finds the row ASSIGNED to the rider, and the others find it collected. -/
def Unrepeated (t : Tables) (order : OrderId) (rider : RiderId) (pids : List ℕ) : Prop :=
  (RiderTap.Held (t.deliveries order) rider .assigned → ∀ p ∈ pids, ∀ q ∈ pids, p = q) ∧
    (¬ RiderTap.Held (t.deliveries order) rider .assigned → pids ≠ [] → Collected t order rider)

/-! ### One call -/

section

variable {t u : Tables} {order : OrderId} {rider : RiderId} {n pid : ℕ} {pids : List ℕ}
  {s s' : Tables × List Op}

theorem attempt_eq (h : attempt s pid = some s') :
    ∃ op op', s.2[pid]? = some op ∧ opStep 0 "" s.1 op = some (s'.1, op') ∧
      s'.2 = s.2.set pid op' := by
  obtain ⟨op, hop, h⟩ := Option.bind_eq_some_iff.mp h
  obtain ⟨⟨t', op'⟩, hstep, rfl⟩ := Option.map_eq_some_iff.mp h
  exact ⟨op, op', hop, hstep, rfl⟩

theorem unassign_held (h : RiderTap.Held (t.deliveries order) rider .assigned) :
    ∃ u, t.unassign order rider = (u, true) ∧ RiderTap.Held (u.deliveries order) rider .offering := by
  obtain ⟨q, hq, hs, hr⟩ := transition_held .offering h
  exact ⟨_, hq, q, by simp, hs, hr⟩

theorem unassign_not_held (h : ¬ RiderTap.Held (t.deliveries order) rider .assigned) :
    t.unassign order rider = (t, false) := transition_not_held h

theorem held_unique {row : Option DeliveryRow} {a b : DeliveryState}
    (h : RiderTap.Held row rider a) (h' : RiderTap.Held row rider b) : a = b := by
  obtain ⟨q, hq, rfl, -⟩ := h
  obtain ⟨q', hq', rfl, -⟩ := h'
  rw [hq, Option.some.injEq] at hq'
  rw [hq']

/-! ### A delivery that is assigned -/

/-- What the executions have done to a row that was ASSIGNED to the rider: nothing, or one of them
has revoked it, or another one has come after it. -/
inductive Revoking (t : Tables) (n : ℕ) (order : OrderId) (rider : RiderId) :
    List ℕ → Tables × List Op → Prop
  | untouched : Revoking t n order rider [] (attempts t n order rider)
  | once {pids : List ℕ} {pid : ℕ} {u : Tables} {op : Op} (hne : pids ≠ [])
      (hpids : ∀ p ∈ pids, p = pid) (hrow : RiderTap.Held (u.deliveries order) rider .offering)
      (hop : op = .finishUnassigned order rider ∨
        op = .answered .revoked ∧ ¬ u.Active rider order) :
      Revoking t n order rider pids (u, (attempts t n order rider).2.set pid op)
  | repeated {pids : List ℕ} {p q : ℕ} {u : Tables} {ops : List Op} (hp : p ∈ pids)
      (hq : q ∈ pids) (hne : p ≠ q) (hrow : RiderTap.Held (u.deliveries order) rider .offering)
      (hop : .answered .alreadyPickedUp ∈ ops)
      (hops : ∀ op ∈ ops, op = .unassign order rider ∨ op = .finishUnassigned order rider ∨
        op.isAnswered = true) :
      Revoking t n order rider pids (u, ops)

theorem getElem?_set_cases {α : Type*} {l : List α} {i j : ℕ} {a b : α}
    (h : (l.set i a)[j]? = some b) : i = j ∧ b = a ∨ i ≠ j ∧ l[j]? = some b := by
  by_cases hij : i = j
  · subst hij
    rw [List.getElem?_set_self'] at h
    obtain ⟨-, -, rfl⟩ := Option.map_eq_some_iff.mp h
    exact .inl ⟨rfl, rfl⟩
  · rw [List.getElem?_set_ne hij] at h
    exact .inr ⟨hij, h⟩

/-- What was answered stays answered. -/
theorem answered_mem_set {ops : List Op} {op op' : Op} {outcome : Outcome}
    (hop : ops[pid]? = some op) (hstep : opStep 0 "" t op = some (u, op'))
    (h : .answered outcome ∈ ops) : .answered outcome ∈ ops.set pid op' := by
  obtain ⟨j, hj⟩ := List.mem_iff_getElem?.mp h
  by_cases hpid : pid = j
  · subst hpid
    rw [hop, Option.some.injEq] at hj
    subst hj
    cases hstep
  · exact List.mem_iff_getElem?.mpr ⟨j, by rwa [List.getElem?_set_ne hpid]⟩

theorem Revoking.step (hheld : RiderTap.Held (t.deliveries order) rider .assigned)
    (h : Revoking t n order rider pids s) (hs : attempt s pid = some s') :
    Revoking t n order rider (pids ++ [pid]) s' := by
  obtain ⟨op, op', hop, hstep, hset⟩ := attempt_eq hs
  obtain ⟨u', ops'⟩ := s'
  cases hset
  cases h with
  | untouched =>
    obtain ⟨u, hu, hrow⟩ := unassign_held hheld
    obtain rfl := List.eq_of_mem_replicate (List.mem_of_getElem? hop)
    simp only [attempts, Call.begin, opStep, hu] at hstep
    cases hstep
    exact .once (List.cons_ne_nil _ _) (fun p hp => List.mem_singleton.mp hp) hrow (.inl rfl)
  | @once pids pid₀ u op₀ hne hpids hrow hop₀ =>
    rcases getElem?_set_cases hop with ⟨rfl, rfl⟩ | ⟨hpid, hop⟩
    · rcases hop₀ with rfl | ⟨rfl, -⟩
      · cases hstep
        rw [List.set_set]
        refine .once (List.append_ne_nil_of_left_ne_nil hne _) (fun p hp => ?_) ?_ (.inr ⟨rfl, ?_⟩)
        · rcases List.mem_append.mp hp with hp | hp
          · exact hpids p hp
          · exact List.mem_singleton.mp hp
        · rwa [finishDelivery_deliveries]
        · intro ha
          exact ((freed_finishDelivery rider order).1.mp ha).2 ⟨rfl, rfl⟩
      · cases hstep
    · have hop' := hop
      obtain rfl := List.eq_of_mem_replicate (List.mem_of_getElem? hop)
      have hnot : ¬ RiderTap.Held (u.deliveries order) rider .assigned := fun h =>
        absurd (held_unique h hrow) (by decide)
      simp only [Call.begin, opStep, unassign_not_held hnot] at hstep
      cases hstep
      obtain ⟨p, hp⟩ := List.exists_mem_of_ne_nil pids hne
      have hlt : pid < ((attempts t n order rider).2.set pid₀ op₀).length := by
        rw [List.length_set]
        exact (List.getElem?_eq_some_iff.mp hop').1
      refine .repeated (List.mem_append_left _ hp) (List.mem_append_right _ List.mem_cons_self)
        (by rwa [hpids p hp]) hrow (List.mem_set hlt _) fun o ho => ?_
      rcases List.mem_or_eq_of_mem_set ho with ho | rfl
      · rcases List.mem_or_eq_of_mem_set ho with ho | rfl
        · exact .inl (List.eq_of_mem_replicate ho)
        · rcases hop₀ with rfl | ⟨rfl, -⟩
          · exact .inr (.inl rfl)
          · exact .inr (.inr rfl)
      · exact .inr (.inr rfl)
  | @repeated pids p q u ops hp hq hne hrow hop₀ hops =>
    have hlater : op'.isAnswered = true ∧ RiderTap.Held (u'.deliveries order) rider .offering := by
      rcases hops op (List.mem_of_getElem? hop) with rfl | rfl | hans
      · have hnot : ¬ RiderTap.Held (u.deliveries order) rider .assigned := fun h =>
          absurd (held_unique h hrow) (by decide)
        simp only [opStep, unassign_not_held hnot] at hstep
        cases hstep
        exact ⟨rfl, hrow⟩
      · cases hstep
        refine ⟨rfl, ?_⟩
        show RiderTap.Held ((u.finishDelivery rider order).1.deliveries order) rider _
        rwa [finishDelivery_deliveries]
      · cases op with
        | answered => cases hstep
        | _ => cases hans
    refine .repeated (List.mem_append_left _ hp) (List.mem_append_left _ hq) hne hlater.2 ?_
      fun o ho => ?_
    · exact answered_mem_set hop hstep hop₀
    · rcases List.mem_or_eq_of_mem_set ho with ho | rfl
      · exact hops o ho
      · exact .inr (.inr hlater.1)

theorem revoking_of_run (hheld : RiderTap.Held (t.deliveries order) rider .assigned)
    (h : Run attempt Always (attempts t n order rider) pids s) :
    Revoking t n order rider pids s := by
  induction h with
  | nil => exact .untouched
  | snoc _ _ hs ih => exact ih.step hheld hs

/-! ### A delivery that is not -/

/-- Every execution is refused. -/
structure Refused (t : Tables) (order : OrderId) (rider : RiderId) (pids : List ℕ)
    (s : Tables × List Op) : Prop where
  tables : s.1 = t
  ops : ∀ op ∈ s.2, op = .unassign order rider ∨ op = .answered .alreadyPickedUp
  answered : pids ≠ [] → .answered .alreadyPickedUp ∈ s.2

theorem Refused.step (hnot : ¬ RiderTap.Held (t.deliveries order) rider .assigned)
    (h : Refused t order rider pids s) (hs : attempt s pid = some s') :
    Refused t order rider (pids ++ [pid]) s' := by
  obtain ⟨op, op', hop, hstep, hset⟩ := attempt_eq hs
  rcases h.ops op (List.mem_of_getElem? hop) with rfl | rfl
  · rw [h.tables] at hstep
    simp only [opStep, unassign_not_held hnot] at hstep
    obtain ⟨htables, rfl⟩ := Prod.mk.inj (Option.some.inj hstep)
    have hlt := (List.getElem?_eq_some_iff.mp hop).1
    refine ⟨htables.symm, fun o ho => ?_, fun _ => ?_⟩
    · rw [hset] at ho
      rcases List.mem_or_eq_of_mem_set ho with ho | rfl
      · exact h.ops o ho
      · exact .inr rfl
    · rw [hset]
      exact List.mem_set hlt _
  · cases hstep

theorem refused_of_run (hnot : ¬ RiderTap.Held (t.deliveries order) rider .assigned)
    (h : Run attempt Always (attempts t n order rider) pids s) :
    Refused t order rider pids s := by
  induction h with
  | nil => exact ⟨rfl, fun op hop => .inl (List.eq_of_mem_replicate hop), fun h => absurd rfl h⟩
  | snoc _ _ hs ih => exact ih.step hnot hs

/-! ### The schedules -/

theorem unassignStalled_held (hheld : RiderTap.Held (t.deliveries order) rider .assigned) :
    (unassignStalled t order rider).2 = .revoked := by
  obtain ⟨u, hu, -⟩ := unassign_held hheld
  simp only [unassignStalled, hu]

theorem unassignStalled_not_held
    (hnot : ¬ RiderTap.Held (t.deliveries order) rider .assigned) :
    (unassignStalled t order rider).2 = .alreadyPickedUp := by
  simp only [unassignStalled, unassign_not_held hnot]

theorem not_collected_of_offering (h : RiderTap.Held (t.deliveries order) rider .offering) :
    ¬ Collected t order rider := by
  rintro (h' | h')
  · exact absurd (held_unique h h') (by decide)
  · exact absurd (held_unique h h') (by decide)

/-- **Repeated executions of the revoke.**  However they are interleaved and wherever they stop,
they keep their promise if and only if at most one of them finds the row ASSIGNED. -/
theorem idempotent_iff (t : Tables) (order : OrderId) (rider : RiderId) (n : ℕ) {pids : List ℕ}
    {s : Tables × List Op} (h : Run attempt Always (attempts t n order rider) pids s) :
    Idempotent t order rider s ↔ Unrepeated t order rider pids := by
  by_cases hheld : RiderTap.Held (t.deliveries order) rider .assigned
  · have hfirst := unassignStalled_held hheld
    have hrepeat : Unrepeated t order rider pids ↔ ∀ p ∈ pids, ∀ q ∈ pids, p = q :=
      ⟨fun hu => hu.1 hheld, fun hu => ⟨fun _ => hu, fun hnot => absurd hheld hnot⟩⟩
    rw [hrepeat]
    cases revoking_of_run hheld h with
    | untouched =>
      refine ⟨fun _ p hp => absurd hp List.not_mem_nil, fun _ => ⟨?_, ?_, ?_⟩⟩
      all_goals
        intros
        next ho => cases List.eq_of_mem_replicate ho
    | @once pids pid u op hne hpids hrow hop =>
      refine ⟨fun _ p hp q hq => (hpids p hp).trans (hpids q hq).symm, fun _ => ?_⟩
      have hanswered : ∀ outcome, .answered outcome ∈ (attempts t n order rider).2.set pid op →
          outcome = .revoked ∧ ¬ u.Active rider order := by
        intro outcome ho
        rcases List.mem_or_eq_of_mem_set ho with ho | rfl
        · cases List.eq_of_mem_replicate ho
        · rcases hop with hop | ⟨hop, hactive⟩
          · cases hop
          · cases hop
            exact ⟨rfl, hactive⟩
      exact ⟨fun outcome ho => (hanswered outcome ho).1.trans hfirst.symm,
        fun ho => absurd (hanswered _ ho).1 (by decide), fun ho => (hanswered _ ho).2⟩
    | @repeated pids p q u ops hp hq hne hrow hop hops =>
      exact ⟨fun hi => absurd (hi.pickedUp hop) (not_collected_of_offering hrow),
        fun hall => absurd (hall p hp q hq) hne⟩
  · have hrefused := refused_of_run hheld h
    have hfirst := unassignStalled_not_held hheld
    have hanswered : ∀ outcome, .answered outcome ∈ s.2 → outcome = .alreadyPickedUp := by
      intro outcome ho
      rcases hrefused.ops _ ho with hop | hop
      · cases hop
      · cases hop
        rfl
    constructor
    · intro hi
      refine ⟨fun h => absurd h hheld, fun _ hne => ?_⟩
      rw [← hrefused.tables]
      exact hi.pickedUp (hrefused.answered hne)
    · intro hu
      refine ⟨fun outcome ho => (hanswered outcome ho).trans hfirst.symm, fun ho => ?_,
        fun ho => absurd (hanswered _ ho) (by decide)⟩
      rw [hrefused.tables]
      refine hu.2 hheld fun hnil => ?_
      rw [hnil] at h
      cases run_iff_exec.mp h
      cases List.eq_of_mem_replicate ho

/-- A rider who was assigned the order, and has not collected it. -/
def waiting : Tables :=
  (Tables.empty.setRider "r1" ⟨.online, none, {"d"}, 1, 1⟩).setDelivery "d"
    ⟨.assigned, "r1", "o1"⟩

theorem idempotent_waiting : ∃ s, Run attempt Always (attempts waiting 2 "d" "r1") [0, 0] s ∧
    Idempotent waiting "d" "r1" s := by
  obtain ⟨s, hs, -⟩ : ∃ s, Run attempt Always (attempts waiting 2 "d" "r1") [0, 0] s ∧
      decide (.answered .revoked ∈ s.2) = true := exists_run_of_execOk (by decide)
  refine ⟨s, hs, (idempotent_iff waiting "d" "r1" 2 hs).mpr ⟨fun _ => by decide, fun hnot => ?_⟩⟩
  exact absurd ⟨⟨.assigned, "r1", "o1"⟩, rfl, rfl, rfl⟩ hnot

/-- An execution stops once its write is made, and the next one says that the order was collected:
the row is OFFERING, and the order is still in the rider's set. -/
theorem revoke_repeated : ∃ s, Run (step 2) Always .empty oneAssignment s ∧
    ∃ u, Run attempt Always (attempts s.tables 2 "d" "r1") [0, 1] u ∧
      .answered .alreadyPickedUp ∈ u.2 ∧ u.1.Active "r1" "d" ∧
      ¬ Idempotent s.tables "d" "r1" u := by
  obtain ⟨s, hs, hp⟩ : ∃ s, Run (step 2) Always .empty oneAssignment s ∧
      decide (((exec attempt (attempts s.tables 2 "d" "r1") [0, 1]).map fun u =>
        decide (.answered .alreadyPickedUp ∈ u.2 ∧ u.1.Active "r1" "d" ∧
          u.1.deliveries "d" = some ⟨.offering, "r1", "o1"⟩)) = some true) = true :=
    exists_run_of_execOk (by decide)
  obtain ⟨u, hu, hd⟩ := Option.map_eq_some_iff.mp (of_decide_eq_true hp)
  obtain ⟨hanswered, hactive, hrow⟩ := of_decide_eq_true hd
  refine ⟨s, hs, u, run_iff_exec.mpr hu, hanswered, hactive, fun hi => ?_⟩
  exact not_collected_of_offering ⟨_, hrow, rfl, rfl⟩ (hi.pickedUp hanswered)

end

end Dispatch
