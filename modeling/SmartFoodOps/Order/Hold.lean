/-
No stranded card hold, unless a void was blind.

The saga's money activities send requests to `PaymentService`; a request runs on
although the activity that sent it is lost, timed out or repeated.  A void decides
from the payments row, which is written only after the processor has answered, and
the client takes "no payment" for success.

* `Cleared` — what the unwind may conclude: no authorization was ever requested, or
  nothing is held, as far as a void can tell;
* `flowOk_own` — every path of the workflow to CANCELLED concludes it;
* `no_stranded_hold` — hence no hold is stranded if no void was blind: if each void
  that finds no row is right, then and later;
* `stranded_hold` — the processor records the authorization and answers 500.
-/
import SmartFoodOps.Order.Saga
import SmartFoodOps.Payment.Backed

open Machine Durable
open Dispatch (OrderId)
open Payment (Gateway GatewayEvent Backed authKey)

namespace Order

namespace Hold

open Workflow

structure Config where
  payment : Payment.Config
  cart : OrderId → Saga.Cart

/-- What everything else answers; `none` is a failure that is not retried. -/
structure Input where
  answer : Option Answer
  deriving DecidableEq, Repr

/-- The request of a money activity. -/
def moneyCall (cfg : Config) (order : OrderId) : Activity → Option Payment.Call
  | .authorizePayment =>
    let cart := cfg.cart order
    some (.authorize order cart.amountCents cart.currency cart.cardToken)
  | .voidAuthorization => some (.lifecycle .void order)
  | .capturePayment => some (.lifecycle .capture order)
  | _ => none

/-- `PaymentClient` and the activity around it, on an answer of the service; the move
of the row after an authorization is the label's. -/
def onAnswer (activity : Activity) (input : Input) (statusCode : ℕ) : Attempt CallPhase Answer :=
  match activity with
  | .authorizePayment =>
    if statusCode = 200 then if input.answer = none then .refused else .answered .ok
    else if statusCode = 402 then .answered .declined
    else .working .send
  | _ => if statusCode = 200 then .answered .done else .working .send

/-- And on an error: ORDER_STATE_CONFLICT is success for a void and final for a
capture; everything else is retried. -/
def onError (activity : Activity) (error : Payment.MoneyError) : Attempt CallPhase Answer :=
  match activity, error with
  | .voidAuthorization, .stateConflict => .answered .done
  | .capturePayment, .stateConflict => .refused
  | _, _ => .working .send

/-- What the client has of its request; `none` while the request is in progress. -/
def clientReads (activity : Activity) (input : Input) : Payment.Op → Option (Attempt CallPhase Answer)
  | .answered outcome => some (onAnswer activity input outcome.statusCode)
  | .raised error => some (onError activity error)
  | .crashed => some (.working .send)
  | _ => none

def work (cfg : Config) (order : OrderId) (activity : Activity) (phase : CallPhase) (input : Input)
    (g : Gateway) : Option (Gateway × Attempt CallPhase Answer) :=
  match moneyCall cfg order activity, phase with
  | some call, .send => some (g.request call, .working (.waiting g.payment.procs.length))
  | some _, .waiting pid =>
    (g.payment.procs[pid]?).bind fun p => (clientReads activity input p.op).map fun t => (g, t)
  | none, _ =>
    some (g, match input.answer with
      | some answer => .answered answer
      | none => .refused)

def worker (cfg : Config) : Worker OrderId Gateway Activity CallPhase Input Answer where
  first := .send
  work := work cfg

abbrev System := Family OrderId Gateway Pos CallPhase Answer

abbrev HoldLabel := Label OrderId Input Signal Event GatewayEvent

def System.empty : System := ⟨.empty, fun _ => ⟨{}, .working .send⟩⟩

def step (cfg : Config) (s : System) (l : HoldLabel) : Option System :=
  familyStep Workflow.flow (worker cfg) (Payment.gatewayStep cfg.payment) s l

/-! ### What the unwind may conclude -/

/-- No authorization of the order was ever requested. -/
def Untouched (g : Gateway) (order : OrderId) : Prop :=
  ∀ call ∈ g.calls, ¬ call.authorizes order

def Cleared (g : Gateway) (order : OrderId) : Prop :=
  Untouched g order ∨ g.truth.Released order

/-- What the workflow may conclude about the hold, await by await. -/
def FlowOk (g : Gateway) (order : OrderId) (pc : Pc) (t : Attempt CallPhase Answer) : Prop :=
  match pc with
  | .createOrder | .forward .placed => Untouched g order
  | .forward .validated =>
    (∀ pid, t = .working (.waiting pid) → ∃ call, g.calls[pid]? = some call ∧
      call.authorizes order) ∧
    (∀ a, t = .answered a → a = .ok ∨ g.truth.Declined order)
  | .beginCancel _ _ void _ => void = false → Cleared g order
  | .voidAuthorization _ _ =>
    (∀ pid, t = .working (.waiting pid) → g.calls[pid]? = some (.lifecycle .void order)) ∧
    (∀ a, t = .answered a → g.truth.Released order)
  | .releaseReservation _ | .finishCancel _ | .returned .cancelled => Cleared g order
  | _ => True

/-- What other steps leave to the order: facts hold on, requests keep their numbers,
and nobody else requests an authorization of it. -/
structure Later (g g' : Gateway) (order : OrderId) : Prop where
  truth : g.truth.Le g'.truth
  calls : ∀ (pid : ℕ) call, g.calls[pid]? = some call → g'.calls[pid]? = some call
  untouched : Untouched g order → Untouched g' order

section

variable {cfg : Config} {g g' : Gateway} {order : OrderId} {pc : Pc} {t : Attempt CallPhase Answer}

theorem Cleared.mono (hl : Later g g' order) (h : Cleared g order) : Cleared g' order :=
  h.imp hl.untouched hl.truth.released

theorem FlowOk.mono (hl : Later g g' order) (h : FlowOk g order pc t) : FlowOk g' order pc t := by
  cases pc with
  | createOrder => exact hl.untouched h
  | forward stage =>
    cases stage with
    | placed => exact hl.untouched h
    | validated =>
      refine ⟨fun pid ht => ?_, fun a ht => (h.2 a ht).imp_right hl.truth.declined⟩
      obtain ⟨call, hc, hauth⟩ := h.1 pid ht
      exact ⟨call, hl.calls pid call hc, hauth⟩
    | paymentCleared => trivial
  | beginCancel => exact fun hv => (h hv).mono hl
  | voidAuthorization =>
    exact ⟨fun pid ht => hl.calls pid _ (h.1 pid ht), fun a ht => hl.truth.released (h.2 a ht)⟩
  | releaseReservation => exact Cleared.mono hl h
  | finishCancel => exact Cleared.mono hl h
  | returned result =>
    cases result with
    | cancelled => exact Cleared.mono hl h
    | settled => trivial
  | _ => trivial

/-- A fresh attempt has concluded nothing. -/
theorem FlowOk.restart (h : FlowOk g order pc t) : FlowOk g order pc (.working .send) := by
  cases pc with
  | forward stage =>
    cases stage with
    | placed => exact h
    | validated => exact ⟨nofun, nofun⟩
    | paymentCleared => trivial
  | voidAuthorization => exact ⟨nofun, nofun⟩
  | returned result => cases result <;> exact h
  | _ => exact h

/-- A request of the order itself. -/
theorem later_request (call : Payment.Call) (hne : ∀ o, call.authorizes o → o ≠ order) :
    Later g (g.request call) order := by
  have hcalls : (g.request call).calls = g.calls ++ [call] := by
    simp [Gateway.calls, Gateway.request]
  refine ⟨.refl _, fun pid c hc => ?_, fun hun c hc => ?_⟩
  · rw [hcalls, List.getElem?_append_left (List.getElem?_eq_some_iff.mp hc).1]
    exact hc
  · rw [hcalls] at hc
    rcases List.mem_append.mp hc with hc | hc
    · exact hun c hc
    · cases List.mem_singleton.mp hc
      exact fun hauth => hne order hauth rfl

theorem calls_request (call : Payment.Call) :
    (g.request call).calls[g.payment.procs.length]? = some call := by
  have hlen : g.payment.procs.length = g.calls.length := by simp [Gateway.calls]
  have hcalls : (g.request call).calls = g.calls ++ [call] := by
    simp [Gateway.calls, Gateway.request]
  rw [hcalls, hlen]
  simp

/-- The proc of a request that is waited for. -/
theorem calls_proc {pid : ℕ} {p : Payment.Proc} {call : Payment.Call}
    (hp : g.payment.procs[pid]? = some p) (hc : g.calls[pid]? = some call) : p.call = call := by
  rw [Gateway.calls, List.getElem?_map, hp] at hc
  exact Option.some.inj hc

/-- What an answer of the service says about the hold. -/
theorem answered_backed {activity : Activity} {input : Input} {p : Payment.Proc}
    (hop : Payment.OpBacked g.truth p.call p.op)
    (h : clientReads activity input p.op = some t) :
    (activity = .authorizePayment → p.call.authorizes order →
      ∀ a, t = .answered a → a = .ok ∨ g.truth.Declined order) ∧
    (activity = .voidAuthorization → p.call = .lifecycle .void order →
      ∀ a, t = .answered a → g.truth.Released order) := by
  obtain ⟨call, op⟩ := p
  constructor
  · rintro rfl ⟨amount, currency, token, rfl⟩ a rfl
    cases op <;> simp only [clientReads] at h <;> try cases h
    · next outcome =>
      have h := Option.some.inj h
      simp only [onAnswer] at h
      split at h
      · split at h <;> cases h
        exact .inl rfl
      · split at h
        · next hst =>
          cases h
          exact .inr (hop hst)
        · cases h
  · rintro rfl rfl a rfl
    cases op <;> simp only [clientReads] at h <;> try cases h
    · next outcome =>
      have h := Option.some.inj h
      simp only [onAnswer] at h
      split at h
      · next hst => exact hop hst
      · cases h
    · next error =>
      cases error <;> simp [onError] at h
      exact hop rfl order rfl

/-- One step of an attempt of the order itself. -/
theorem FlowOk.work {activity : Activity} {phase : CallPhase} {input : Input}
    (hb : Backed g) (h : FlowOk g order pc (.working phase))
    (ha : Workflow.activity pc = some activity)
    (hw : work cfg order activity phase input g = some (g', t)) : FlowOk g' order pc t := by
  have hother : moneyCall cfg order activity = none → g' = g := by
    intro hnone
    simp only [Hold.work, hnone] at hw
    cases hw
    rfl
  cases pc with
  | createOrder =>
    cases ha
    rw [hother rfl]
    exact h
  | forward stage =>
    cases ha
    cases stage with
    | placed =>
      rw [hother rfl]
      exact h
    | validated =>
      simp only [forwardActivity, Hold.work, moneyCall] at hw
      cases phase with
      | send =>
        cases hw
        refine ⟨fun pid ht => ?_, nofun⟩
        cases ht
        exact ⟨_, calls_request _, _, _, _, rfl⟩
      | waiting pid =>
        obtain ⟨p, hp, hr⟩ := Option.bind_eq_some_iff.mp hw
        obtain ⟨t', ht', he⟩ := Option.map_eq_some_iff.mp hr
        cases he
        obtain ⟨call, hc, hauth⟩ := h.1 pid rfl
        rw [← calls_proc hp hc] at hauth
        refine ⟨fun n ht => ?_, (answered_backed (hb.procs pid p hp) ht').1 rfl hauth⟩
        subst ht
        cases hop : p.op <;> simp only [hop, clientReads] at ht' <;> try cases ht'
        · have ht' := Option.some.inj ht'
          simp only [onAnswer] at ht'
          split at ht'
          · split at ht' <;> cases ht'
          · split at ht' <;> cases ht'
    | paymentCleared => trivial
  | beginCancel expected reason void release =>
    cases ha
    rw [hother rfl]
    exact h
  | voidAuthorization reason release =>
    cases ha
    simp only [Hold.work, moneyCall] at hw
    cases phase with
    | send =>
      cases hw
      refine ⟨fun pid ht => ?_, nofun⟩
      cases ht
      exact calls_request _
    | waiting pid =>
      obtain ⟨p, hp, hr⟩ := Option.bind_eq_some_iff.mp hw
      obtain ⟨t', ht', he⟩ := Option.map_eq_some_iff.mp hr
      cases he
      have hc := calls_proc hp (h.1 pid rfl)
      refine ⟨fun n ht => ?_, (answered_backed (hb.procs pid p hp) ht').2 rfl hc⟩
      subst ht
      cases hop : p.op <;> simp only [hop, clientReads] at ht' <;> try cases ht'
      · have ht' := Option.some.inj ht'
        simp only [onAnswer] at ht'
        split at ht' <;> cases ht'
      · next error => cases error <;> simp [onError] at ht'
  | releaseReservation reason =>
    cases ha
    rw [hother rfl]
    exact h
  | finishCancel reason =>
    cases ha
    rw [hother rfl]
    exact h
  | returned result => cases ha
  | _ => trivial

theorem flowOk_unwindRelease {reason : CancelReason} {release : Bool} (h : Cleared g order) :
    FlowOk g order (unwindRelease reason release) (.working .send) := by
  cases release <;> exact h

theorem flowOk_unwind {reason : CancelReason} {void release : Bool}
    (h : void = false → Cleared g order) :
    FlowOk g order (unwind reason void release) (.working .send) := by
  cases void with
  | true => exact ⟨nofun, nofun⟩
  | false => exact flowOk_unwindRelease (h rfl)

/-- The result of an activity. -/
theorem FlowOk.report {answer : Answer} (h : FlowOk g order pc (.answered answer))
    (ha : Workflow.activity pc ≠ none) :
    FlowOk g order (afterAnswer pc answer) (.working .send) := by
  cases pc with
  | createOrder => exact h
  | forward stage =>
    cases stage with
    | placed =>
      by_cases hans : answer = .ok
      · subst hans
        exact ⟨by rintro _ ⟨⟩, by rintro _ ⟨⟩⟩
      · simp only [afterAnswer, afterForward, hans, if_false]
        exact fun _ => .inl h
    | validated =>
      by_cases hans : answer = .ok
      · subst hans
        trivial
      · simp only [afterAnswer, afterForward, hans, if_false]
        exact fun _ => .inr (.inr (.inl ((h.2 answer rfl).resolve_left hans)))
    | paymentCleared => trivial
  | beginCancel expected reason void release => exact flowOk_unwind h
  | voidAuthorization reason release => exact flowOk_unwindRelease (.inr (h.2 answer rfl))
  | releaseReservation reason => exact h
  | finishCancel reason => exact h
  | cancelDispatch => exact flowOk_unwind (by rintro ⟨⟩)
  | customerCancel | noRiderCancel =>
    simp only [afterAnswer]
    split <;> trivial
  | returned result => exact absurd rfl ha
  | _ => trivial

/-- The end of a wait: nothing is taken back without a void. -/
theorem flowOk_event {p p' : Pos} {e : Event} (he : afterWait p e = some p') :
    FlowOk g order p'.pc (.working .send) := by
  cases (ends he).1 with
  | cancels _ hnext => rw [hnext]; exact nofun
  | drained _ _ hnext => rw [hnext]; exact ⟨nofun, nofun⟩
  | @child how _ _ hnext => rw [hnext]; cases how <;> trivial
  | begins _ hnext | asked _ hnext | started _ _ hnext => rw [hnext]; trivial

/-- The deadline: before VALIDATED nothing was requested. -/
theorem FlowOk.expire {stage : Stage} (h : FlowOk g order (.forward stage) t) :
    FlowOk g order (afterDeadline stage) (.working .send) := by
  intro hvoid
  cases stage with
  | placed => exact .inl h
  | validated => simp at hvoid
  | paymentCleared => simp at hvoid

/-- **One move of the workflow** of the order itself. -/
theorem flowOk_own {i i' : Inst Pos CallPhase Answer} {m : Move Input Signal Event} (hb : Backed g)
    (h : FlowOk g order i.pos.pc i.attempt)
    (hm : move flow (worker cfg) order g i m = some (g', i')) :
    FlowOk g' order i'.pos.pc i'.attempt := by
  rcases move_cases hm with ⟨input, a, phase, attempt, -, ha, hp, hw, rfl⟩ | ⟨rfl, hrest⟩
  · rw [hp] at h
    exact h.work hb ha hw
  · rcases hrest with ⟨-, -, rfl⟩ | ⟨a, answer, -, ha, hr, rfl⟩ | ⟨a, -, -, -, rfl⟩ |
      ⟨a, -, -, hbound, rfl⟩ | ⟨s, -, rfl⟩ | ⟨e, pos, -, he, rfl⟩
    · exact h.restart
    · rw [hr] at h
      exact h.report (by rw [show Workflow.activity i.pos.pc = some a from ha]; simp)
    · trivial
    · cases hpc : i.pos.pc with
      | forward stage =>
        rw [hpc] at h
        simpa [flow, worker, hpc] using h.expire
      | _ => simp [flow, isForward, hpc] at hbound
    · simpa [flow] using h
    · exact flowOk_event he

/-- One move of another order's workflow. -/
theorem later_move {k : OrderId} {i i' : Inst Pos CallPhase Answer} {m : Move Input Signal Event}
    (hne : order ≠ k) (hm : move flow (worker cfg) k g i m = some (g', i')) : Later g g' order := by
  have hsame : Later g g order := ⟨.refl _, fun _ _ h => h, id⟩
  rcases move_cases hm with ⟨input, a, phase, attempt, -, -, -, hw, -⟩ | ⟨rfl, -⟩
  · have hw : work cfg k a phase input g = some (g', attempt) := hw
    unfold work at hw
    split at hw
    · next call hcall _ =>
      cases hw
      refine later_request call fun o hauth => ?_
      obtain ⟨amount, currency, token, rfl⟩ := hauth
      rintro rfl
      cases a <;> simp [moneyCall] at hcall
      exact hne hcall.1.symm
    · obtain ⟨p, hp, hr⟩ := Option.bind_eq_some_iff.mp hw
      obtain ⟨t', -, he⟩ := Option.map_eq_some_iff.mp hr
      cases he
      exact hsame
    · cases hw
      exact hsame
  · exact hsame

theorem backed_move {k : OrderId} {i i' : Inst Pos CallPhase Answer} {m : Move Input Signal Event}
    (hb : Backed g) (hm : move flow (worker cfg) k g i m = some (g', i')) : Backed g' := by
  rcases move_cases hm with ⟨input, a, phase, attempt, -, -, -, hw, -⟩ | ⟨rfl, -⟩
  · have hw : work cfg k a phase input g = some (g', attempt) := hw
    unfold work at hw
    split at hw
    · cases hw
      exact hb.request _
    · obtain ⟨p, hp, hr⟩ := Option.bind_eq_some_iff.mp hw
      obtain ⟨t', -, he⟩ := Option.map_eq_some_iff.mp hr
      cases he
      exact hb
    · cases hw
      exact hb
  · exact hb

end

/-! ### The property -/

def Inv (s : System) : Prop :=
  Backed s.world ∧ ∀ order, FlowOk s.world order (s.insts order).pos.pc (s.insts order).attempt

/-- In every reachable state a workflow that returned CANCELLED has cleared the hold, as
far as its void could tell. -/
theorem inv_of_run {cfg : Config} {ok : System → HoldLabel → Prop} {is : List HoldLabel}
    {s : System} (h : Run (step cfg) ok .empty is s) : Inv s := by
  have h0 : Inv .empty :=
    ⟨Payment.backed_empty, fun order call hc => nomatch (show call ∈ [] from hc)⟩
  refine Run.invariant (I := Inv) h0 ?_ h
  rintro t l u ⟨hb, hf⟩ - hs
  cases l with
  | flow k m =>
    obtain ⟨⟨g', i'⟩, hm, rfl⟩ := Option.map_eq_some_iff.mp hs
    refine ⟨backed_move hb hm, fun order => ?_⟩
    show FlowOk g' order (Function.update t.insts k i' order).pos.pc
      (Function.update t.insts k i' order).attempt
    by_cases ho : order = k
    · subst ho
      rw [Function.update_self]
      exact flowOk_own hb (hf order) hm
    · rw [Function.update_of_ne ho]
      exact (hf order).mono (later_move ho hm)
  | env e =>
    obtain ⟨g', he, rfl⟩ := Option.map_eq_some_iff.mp hs
    obtain ⟨hb', hle, hcalls⟩ := hb.step he
    refine ⟨hb', fun order => (hf order).mono ⟨hle, fun pid call hc => ?_, fun hun call hc => ?_⟩⟩
    · rwa [hcalls]
    · rw [hcalls] at hc
      exact hun call hc

/-- The processor has approved an authorization of the order. -/
def approvedAt (psp : Payment.Psp) (order : OrderId) : Bool :=
  match psp.answered (authKey order) with
  | some (.authorization true _) => true
  | _ => false

/-- A step in which no void is blind: a void finds the payments row absent only when the
processor has approved nothing for the order, and the processor approves nothing anew
for an order whose void found no row. -/
def NoBlindVoid (s : System) (l : HoldLabel) : Prop :=
  match l with
  | .env (.statement pid _) =>
    ∀ order ∈ Payment.absentVoid s.world pid, approvedAt s.world.psp order = false
  | .env (.attempt pid fate approved _) =>
    ∀ p ∈ s.world.payment.procs[pid]?, approved = true → fate ≠ .givenUp →
      p.call.order ∈ s.world.voidedAbsent →
        (s.world.psp.answered (authKey p.call.order)).isSome
  | _ => True

instance (s : System) (l : HoldLabel) : Decidable (NoBlindVoid s l) := by
  unfold NoBlindVoid
  split <;> infer_instance

section

variable {g g' : Gateway} {order : OrderId}

theorem approvedAt_of_approved {ref : String} (h : g.truth.Approved order ref) :
    approvedAt g.psp order = true := by
  have h : g.psp.answered (authKey order) = _ := h
  simp [approvedAt, h]

/-- What a gateway call can newly approve. -/
theorem gatewayCall_approves {p : Payment.Proc} {approved : Bool} {fresh : String}
    {psp : Payment.Psp} {reply : Payment.GatewayReply}
    (h : Payment.gatewayCall g.psp p approved fresh = some (psp, reply))
    (happ : approvedAt psp order = true) :
    approvedAt g.psp order = true ∨
      p.call.order = order ∧ approved = true ∧ g.psp.answered (authKey order) = none := by
  unfold Payment.gatewayCall at h
  split at h
  · next o amount currency token hop hcall =>
    rw [hcall] at h ⊢
    have h := Option.some.inj h
    unfold Payment.Psp.authorize at h
    split at h
    · cases h
      exact .inl happ
    · next hnew =>
      cases h
      simp only [approvedAt, Payment.Psp.record_answered] at happ
      by_cases hk : authKey order = (Payment.Call.authorize o amount currency token).key
      · rw [if_pos hk] at happ
        cases approved with
        | true =>
          refine .inr ⟨(Payment.authKey_inj hk).symm, rfl, ?_⟩
          rw [hk]
          exact hnew
        | false => cases happ
      · rw [if_neg hk] at happ
        exact .inl happ
  · next row kind o hop hcall =>
    rw [hcall] at h
    have h := Option.some.inj h
    unfold Payment.Psp.lifecycle at h
    split at h
    · cases h; exact .inl happ
    · split at h
      · cases h; exact .inl happ
      · split at h
        · cases h
          simp only [approvedAt, Payment.Psp.record_answered,
            if_neg Payment.authKey_ne_lifecycle] at happ
          exact .inl happ
        · cases h; exact .inl happ
  · cases h

/-- What a step does to the processor's book and to the history of the voids. -/
theorem gatewayStep_truth {cfg : Payment.Config} {e : GatewayEvent}
    (h : Payment.gatewayStep cfg e g = some g') :
    (g'.psp = g.psp ∧ g'.voidedAbsent = g.voidedAbsent) ∨
    (∃ pid now, e = .statement pid now ∧ g'.psp = g.psp ∧
      g'.voidedAbsent = g.voidedAbsent ++ (Payment.absentVoid g pid).toList) ∨
    (∃ pid fate approved fresh p reply, e = .attempt pid fate approved fresh ∧ fate ≠ .givenUp ∧
      g.payment.procs[pid]? = some p ∧
      Payment.gatewayCall g.psp p approved fresh = some (g'.psp, reply) ∧
      g'.voidedAbsent = g.voidedAbsent) := by
  cases e with
  | statement pid now =>
    simp only [Payment.gatewayStep] at h
    split at h
    · cases h
    · split at h
      · cases h
      · obtain ⟨s, -, rfl⟩ := Option.map_eq_some_iff.mp h
        exact .inr (.inl ⟨pid, now, rfl, rfl, rfl⟩)
  | attempt pid fate approved fresh =>
    simp only [Payment.gatewayStep] at h
    split at h
    · cases h
    · next p hp =>
      split at h
      · cases h
      · next psp reply hcall =>
        split at h
        · cases h
        · cases fate with
          | delivered =>
            obtain ⟨s, -, rfl⟩ := Option.map_eq_some_iff.mp h
            exact .inr (.inr ⟨pid, _, approved, fresh, p, reply, rfl, (by rintro ⟨⟩), hp, hcall, rfl⟩)
          | lost =>
            cases h
            exact .inr (.inr ⟨pid, _, approved, fresh, p, reply, rfl, (by rintro ⟨⟩), hp, hcall, rfl⟩)
          | givenUp =>
            obtain ⟨s, -, rfl⟩ := Option.map_eq_some_iff.mp h
            exact .inl ⟨rfl, rfl⟩
  | crash pid =>
    obtain ⟨s, -, rfl⟩ := Option.map_eq_some_iff.mp h
    exact .inl ⟨rfl, rfl⟩
  | purge key now orphanTtl =>
    obtain ⟨s, -, rfl⟩ := Option.map_eq_some_iff.mp h
    exact .inl ⟨rfl, rfl⟩

end

/-- Without a blind void, an order whose void found no row has no approval. -/
theorem voidedAbsent_not_approved {cfg : Config} {is : List HoldLabel} {s : System}
    (h : Run (step cfg) NoBlindVoid .empty is s) :
    ∀ order ∈ s.world.voidedAbsent, approvedAt s.world.psp order = false := by
  refine Run.invariant (I := fun s : System => ∀ order ∈ s.world.voidedAbsent,
    approvedAt s.world.psp order = false) (fun order ho => nomatch (show order ∈ [] from ho)) ?_ h
  intro t l u hI hok hs
  cases l with
  | flow k m =>
    obtain ⟨⟨g', i'⟩, hm, rfl⟩ := Option.map_eq_some_iff.mp hs
    -- the worker only adds requests
    have hsame : g'.psp = t.world.psp ∧ g'.voidedAbsent = t.world.voidedAbsent := by
      rcases move_cases hm with ⟨input, a, phase, attempt, -, -, -, hw, -⟩ | ⟨rfl, -⟩
      · have hw : work cfg k a phase input t.world = some (g', attempt) := hw
        unfold work at hw
        split at hw
        · cases hw; exact ⟨rfl, rfl⟩
        · obtain ⟨p, -, hr⟩ := Option.bind_eq_some_iff.mp hw
          obtain ⟨t', -, he⟩ := Option.map_eq_some_iff.mp hr
          cases he
          exact ⟨rfl, rfl⟩
        · cases hw; exact ⟨rfl, rfl⟩
      · exact ⟨rfl, rfl⟩
    intro order ho
    rw [hsame.2] at ho
    rw [hsame.1]
    exact hI order ho
  | env e =>
    obtain ⟨g', he, rfl⟩ := Option.map_eq_some_iff.mp hs
    intro order ho
    rcases gatewayStep_truth he with ⟨hp, hv⟩ | ⟨pid, now, rfl, hp, hv⟩ |
      ⟨pid, fate, approved, fresh, p, reply, rfl, hfate, hproc, hcall, hv⟩
    · rw [hp]
      rw [hv] at ho
      exact hI order ho
    · rw [hp]
      rw [hv] at ho
      rcases List.mem_append.mp ho with ho | ho
      · exact hI order ho
      · exact hok order (by simpa using ho)
    · rw [hv] at ho
      by_contra happ
      rcases gatewayCall_approves hcall (by simpa using happ) with hold | ⟨horder, happr, hnone⟩
      · rw [hI order ho] at hold
        cases hold
      · have hsome := hok p hproc happr hfate (by rw [horder]; exact ho)
        rw [horder, hnone] at hsome
        cases hsome

/-- **No card hold is stranded in a run without a blind void**: once the workflow has
returned CANCELLED, no authorization that the processor recorded for the order is
still authorized. -/
theorem no_stranded_hold {cfg : Config} {is : List HoldLabel} {s : System} {order : OrderId}
    (h : Run (step cfg) NoBlindVoid .empty is s)
    (hcancelled : (s.insts order).pos.pc = .returned .cancelled) :
    ¬ Payment.Stranded s.world.psp order := by
  rintro ⟨ref, happ, hst⟩
  obtain ⟨hb, hf⟩ := inv_of_run h
  have hclear : Cleared s.world order := by
    have := hf order
    rw [hcancelled] at this
    exact this
  rcases hclear with hun | ⟨ref', st, happ', hst', hne⟩ | ⟨ref', hdec⟩ | habs
  · obtain ⟨-, call, hc, hauth⟩ := hb.auth order _ happ
    exact hun call hc hauth
  · have happ : s.world.truth.Approved order ref := happ
    obtain rfl := happ.unique happ'
    exact hne (Option.some.inj (hst'.symm.trans hst))
  · have := happ.symm.trans hdec
    simp at this
  · have hnot := voidedAbsent_not_approved h order habs
    rw [approvedAt_of_approved happ] at hnot
    cases hnot

/-! ### Runs -/

def oneOrder : Config where
  payment := ⟨id, {}⟩
  cart _ := ⟨"h", "r", [⟨"i", 2⟩], 700, "EUR", "tok"⟩

/-- An activity of the order that is answered without the payment service. -/
def answered (order : OrderId) (answer : Answer) : List HoldLabel :=
  [.flow order (.work ⟨some answer⟩), .flow order .report]

/-- The answer to a request is read and becomes the result of the activity. -/
def receive (order : OrderId) : List HoldLabel :=
  [.flow order (.work ⟨some .ok⟩), .flow order .report]

/-- `n` statements of a request. -/
def statements (pid n : ℕ) : List HoldLabel := List.replicate n (.env (.statement pid 0))

/-- An order up to the request of its authorization, which reserves its key. -/
def upToAuthorize (order : OrderId) : List HoldLabel :=
  answered order .done ++ answered order .ok ++
    [.flow order (.work ⟨none⟩)] ++ statements 0 1

/-- The processor records the authorization, but no answer of it arrives; the service
gives up and releases its key, and the workflow runs out of time. -/
def recordedUnanswered (order : OrderId) : List HoldLabel :=
  [.env (.attempt 0 .lost true "ref"), .env (.attempt 0 .givenUp true "ref2")] ++ statements 0 1 ++
    [.flow order (.work ⟨none⟩), .flow order .expire]

/-- The timeout unwind, whose void finds no payments row. -/
def blindUnwind (order : OrderId) : List HoldLabel :=
  answered order .done ++ [.flow order (.work ⟨none⟩)] ++ statements 1 3 ++ receive order ++
    answered order .done ++ answered order .done

/-- **The processor records the authorization and answers 5xx**: the void finds no row,
the client takes that for success, the order is CANCELLED with nothing in flight, and the
hold stays authorized. -/
theorem stranded_hold : ∃ s,
    Run (step oneOrder) Always .empty
      (upToAuthorize "o" ++ recordedUnanswered "o" ++ blindUnwind "o") s ∧
    (s.insts "o").pos.pc = .returned .cancelled ∧
    (s.world.payment.procs.all fun p => p.op.ended) = true ∧
    Payment.Stranded s.world.psp "o" := by
  obtain ⟨s, hs, hp⟩ : ∃ s,
      Run (step oneOrder) Always .empty
        (upToAuthorize "o" ++ recordedUnanswered "o" ++ blindUnwind "o") s ∧
      decide ((s.insts "o").pos.pc = .returned .cancelled ∧
        (s.world.payment.procs.all fun p => p.op.ended) = true ∧
        s.world.psp.answered (authKey "o") = some (.authorization true "ref") ∧
        s.world.psp.refs "ref" = some .authorized) = true :=
    exists_run_of_execOk (by decide)
  obtain ⟨hpc, hended, happ, hst⟩ := of_decide_eq_true hp
  exact ⟨s, hs, hpc, hended, "ref", happ, hst⟩

/-- The authorization is answered and recorded, and a customer cancels. -/
def authorizedThenCancelled (order : OrderId) : List HoldLabel :=
  [.env (.attempt 0 .delivered true "ref")] ++ statements 0 4 ++ receive order ++
    answered order .done ++
    [.flow order (.signal .cancelRequested), .flow order (.event .wake)]

/-- The unwind, whose void reaches the processor. -/
def unwindVoid (order : OrderId) : List HoldLabel :=
  answered order .done ++ [.flow order (.work ⟨none⟩)] ++ statements 1 2 ++
    [.env (.attempt 1 .delivered true "x")] ++ statements 1 3 ++ receive order ++
    answered order .done ++ answered order .done

/-- A hold that was made, and voided when the customer cancelled. -/
theorem no_stranded_hold_voided : ∃ s,
    Run (step oneOrder) NoBlindVoid .empty
      (upToAuthorize "o" ++ authorizedThenCancelled "o" ++ unwindVoid "o") s ∧
    s.world.psp.answered (authKey "o") = some (.authorization true "ref") ∧
    ¬ Payment.Stranded s.world.psp "o" := by
  obtain ⟨s, hs, hp⟩ : ∃ s,
      Run (step oneOrder) NoBlindVoid .empty
        (upToAuthorize "o" ++ authorizedThenCancelled "o" ++ unwindVoid "o") s ∧
      decide ((s.insts "o").pos.pc = .returned .cancelled ∧
        s.world.psp.answered (authKey "o") = some (.authorization true "ref")) = true :=
    exists_run_of_execOk (by decide)
  obtain ⟨hpc, happ⟩ := of_decide_eq_true hp
  exact ⟨s, hs, happ, no_stranded_hold hs hpc⟩

end Hold

end Order
