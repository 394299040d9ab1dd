/-
An order's two workflows and their row.

`OrderWorkflow` starts `DeliveryWorkflow` as its child, hears of its end, and may ask
for its cancellation; both write the row that referees between them.  The system is
that of the sagas, with the children beside it: a child's marks are the moves of the
row that the sagas' environment makes, and a customer's cancel goes through
`request_cancel`.

* What dispatch answers to a child, and the signals that reach it, are labels.
* `System.executed` is history: the activities of the sagas that were attempted, with
  the status that the row had then.
* `saga_run` — what the sagas do here is a run of the sagas' own system;
* `seen` — what one step is, for the workflows and the row of one order.
-/
import SmartFoodOps.Order.Lifecycle
import SmartFoodOps.Order.Coherence
import SmartFoodOps.Order.Delivery

open Machine Durable
open Dispatch (OrderId RiderId)

namespace Order

namespace Joint

open Saga (Config Phase Input OtherMove)

/-! ### The activities of the delivery -/

/-- What dispatch answers. -/
structure ChildInput where
  now : ℕ
  outcome : Dispatch.Outcome
  deriving DecidableEq, Repr

abbrev Child := Inst Delivery.Pos Unit Delivery.Answer

abbrev Parent := Inst Workflow.Pos Phase Workflow.Answer

/-- `mark_picked_up` and `mark_delivered`. -/
def mark (w : Saga.World) (order : OrderId) (m : OtherMove) (now : ℕ) :
    Saga.World × Attempt Unit Delivery.Answer :=
  match transition (w.orders order) m.expected m.target (some m.event) none now with
  | .ok (row, _) => (w.setOrder order row, .answered .done)
  | .error _ => (w, .refused)

/-- One attempt. -/
def childWork (order : OrderId) (activity : Delivery.Activity) (_ : Unit) (input : ChildInput)
    (w : Saga.World) : Option (Saga.World × Attempt Unit Delivery.Answer) :=
  match activity with
  | .markPickedUp => some (mark w order .pickedUp input.now)
  | .markDelivered => some (mark w order .delivered input.now)
  | .recordRider rider =>
    some (w.setOrder order (recordRider (w.orders order) rider), .answered .done)
  | .findAndOffer _ _ | .expireOffer _ _ | .unassignStalled _ | .cancelDispatch =>
    some (w, .answered (.outcome input.outcome))

def childWorker : Worker OrderId Saga.World Delivery.Activity Unit ChildInput Delivery.Answer where
  first := ()
  work := childWork

/-- How a child has ended, once it has. -/
def endOf : Delivery.Pc → Option Workflow.ChildEnd
  | .returned .delivered => some .delivered
  | .returned .noRider => some .noRider
  | .failed => some .failed
  | .cancelled => some .cancelled
  | _ => none

/-! ### `request_cancel` -/

/-- `CANCELLABLE_STATES`. -/
def cancellableStates : List OrderStatus :=
  [.placed, .validated, .paymentCleared, .confirmed, .accepted, .preparing, .ready]

/-- `CANCELLED_FAMILY`. -/
def cancelledFamily : List OrderStatus := [.cancelling, .cancelled, .refunded]

/-- What `request_cancel` returns or raises. -/
inductive CancelOutcome
  | submitted (status : OrderStatus)
  | alreadyDone (status : OrderStatus) (reason : Option CancelReason)
  | notCancellable (status : OrderStatus)
  | orderNotFound
  | sagaUnavailable
  | unhandled
  deriving DecidableEq, Repr

/-- A call of `request_cancel` between two of its awaits. -/
inductive Ask
  /-- `owned`: the order is the caller's. -/
  | read (owned : Bool)
  | signal (seen : OrderStatus)
  | reread
  | answered (outcome : CancelOutcome)
  deriving DecidableEq, Repr

structure Request where
  order : OrderId
  ask : Ask
  deriving DecidableEq, Repr

/-- The classification of the row that was read; `none` goes on to the signal. -/
def classify (r : OrderRow) : Option CancelOutcome :=
  if r.status ∈ cancelledFamily then some (.alreadyDone r.status (r.cancellation.map (·.1)))
  else if r.status ∉ cancellableStates then some (.notCancellable r.status)
  else none

/-- The first read. -/
def afterRead : Option OrderRow → Ask
  | none => .answered .orderNotFound
  | some r => match classify r with
    | some outcome => .answered outcome
    | none => .signal r.status

/-- The read after `SagaGone`. -/
def afterReread : Option OrderRow → Ask
  | none => .answered .unhandled
  | some r => .answered ((classify r).getD .sagaUnavailable)

/-! ### The system -/

structure System where
  saga : Saga.System
  /-- The child of each order, once it has been started. -/
  children : OrderId → Option Child
  requests : List Request
  executed : OrderId → List (Workflow.Activity × Option OrderStatus)

def System.empty : System := ⟨.empty, fun _ => none, [], fun _ => []⟩

namespace System

variable (s : System) (order : OrderId)

def parent : Parent := s.saga.insts order

def status : Option OrderStatus := statusOf (s.saga.world.orders order)

end System

inductive Label
  | parent (order : OrderId) (m : Move Input Workflow.Signal Workflow.Event)
  /-- The server starts the child. -/
  | spawn (order : OrderId)
  | child (order : OrderId) (m : Move ChildInput Delivery.News Delivery.Event)
  | env (e : Saga.EnvEvent)
  | ask (order : OrderId) (owned : Bool)
  | request (pid : ℕ)
  /-- The signal's RPC fails. -/
  | requestLost (pid : ℕ)
  deriving DecidableEq

/-- The parent is told what has become of its child. -/
def Told (child : Option Child) : Move Input Workflow.Signal Workflow.Event → Prop
  | .signal (.childEnded how) => child.bind (fun i => endOf i.pos.pc) = some how
  | .event .childStarted => child.isSome = true
  | _ => True

instance (child : Option Child) (m : Move Input Workflow.Signal Workflow.Event) :
    Decidable (Told child m) := by
  unfold Told
  split <;> infer_instance

/-- The workflow has ended. -/
def ended : Workflow.Pc → Bool
  | .returned _ | .failed => true
  | _ => false

/-- The parent has asked for the cancellation of its child: by `child.cancel()`, or by
its end, under the parent close policy. -/
def asksCancel (pc : Workflow.Pc) : Bool := pc = .drainChild || ended pc

/-- The moves of the row that a child makes. -/
def ofDelivery : Saga.EnvEvent → Bool
  | .otherMove _ .pickedUp _ | .otherMove _ .delivered _ | .recordRider _ _ => true
  | _ => false

/-- The activity that a move of the parent executes. -/
def executes (s : System) (order : OrderId) (m : Move Input Workflow.Signal Workflow.Event) :
    List (Workflow.Activity × Option OrderStatus) :=
  match m, Workflow.activity (s.parent order).pos.pc, (s.parent order).attempt with
  | .work _, some a, .working .first => [(a, s.status order)]
  | _, _, _ => []

def setAsk (s : System) (pid : ℕ) (order : OrderId) (ask : Ask) : System :=
  { s with requests := s.requests.set pid ⟨order, ask⟩ }

/-- The workflow hears the customer's cancel. -/
def hear (i : Parent) : Parent := { i with pos := Workflow.onSignal i.pos .cancelRequested }

def signalCancel (s : System) (order : OrderId) : System :=
  let insts := Function.update s.saga.insts order (hear (s.parent order))
  { s with saga := { s.saga with insts := insts } }

/-- The next await of `request_cancel`. -/
def requestStep (s : System) (pid : ℕ) (order : OrderId) : Ask → Option System
  | .read owned =>
    some (setAsk s pid order (afterRead (if owned then s.saga.world.orders order else none)))
  | .signal seen =>
    -- a workflow that has ended is gone
    if ended (s.parent order).pos.pc then some (setAsk s pid order .reread)
    else some (setAsk (signalCancel s order) pid order (.answered (.submitted seen)))
  | .reread => some (setAsk s pid order (afterReread (s.saga.world.orders order)))
  | .answered _ => none

def step (cfg : Config) (s : System) : Label → Option System
  | .parent order m =>
    if Told (s.children order) m then
      let executed := Function.update s.executed order (s.executed order ++ executes s order m)
      (Saga.step cfg s.saga (.flow order m)).map fun saga =>
        { s with saga := saga, executed := executed }
    else none
  | .spawn order =>
    if (s.parent order).pos.pc = .startChild ∧ s.children order = none then
      some { s with children := Function.update s.children order (some (.enter childWorker {})) }
    else none
  | .child order m =>
    match s.children order with
    | none => none
    | some i =>
      if m = .event .cancel → asksCancel (s.parent order).pos.pc = true then
        (move Delivery.flow childWorker order s.saga.world i m).map fun (w, i') =>
          { s with saga := { s.saga with world := w },
                   children := Function.update s.children order (some i') }
      else none
  | .env e =>
    if ofDelivery e then none
    else (Saga.step cfg s.saga (.env e)).map fun saga => { s with saga := saga }
  | .ask order owned => some { s with requests := s.requests ++ [⟨order, .read owned⟩] }
  | .request pid =>
    match s.requests[pid]? with
    | some ⟨order, ask⟩ => requestStep s pid order ask
    | none => none
  | .requestLost pid =>
    match s.requests[pid]? with
    | some ⟨order, .signal _⟩ => some (setAsk s pid order (.answered .sagaUnavailable))
    | _ => none

/-! ### The sagas' own system -/

section

variable {cfg : Config} {s u : System} {l : Label} {order : OrderId} {w w' : Saga.World}

theorem ended_iff {pc : Workflow.Pc} : ended pc = true ↔ pc.Closed := by
  cases pc <;> simp [ended, Workflow.Pc.Closed]

/-- A mark is a move of the row by the sagas' environment. -/
theorem mark_world (m : OtherMove) (now : ℕ) :
    Saga.environment cfg (.otherMove order m now) w = some (mark w order m now).1 := by
  simp only [Saga.environment, Saga.moveRow, mark]
  cases transition (w.orders order) m.expected m.target (some m.event) none now <;> rfl

/-- What a child's attempt does to the sagas' world, their environment does. -/
theorem childWork_environment (cfg : Config) {a : Delivery.Activity} {phase : Unit}
    {input : ChildInput} {t : Attempt Unit Delivery.Answer} (h : childWork order a phase input w = some (w', t)) :
    w' = w ∨ ∃ e, Saga.environment cfg e w = some w' := by
  cases a with
  | markPickedUp =>
    obtain ⟨rfl, -⟩ := Prod.mk.inj (Option.some.inj h)
    exact .inr ⟨_, mark_world .pickedUp input.now⟩
  | markDelivered =>
    obtain ⟨rfl, -⟩ := Prod.mk.inj (Option.some.inj h)
    exact .inr ⟨_, mark_world .delivered input.now⟩
  | recordRider rider =>
    obtain ⟨rfl, -⟩ := Prod.mk.inj (Option.some.inj h)
    exact .inr ⟨.recordRider order rider, rfl⟩
  | findAndOffer | expireOffer | unassignStalled | cancelDispatch =>
    obtain ⟨rfl, -⟩ := Prod.mk.inj (Option.some.inj h)
    exact .inl rfl

/-- **Refinement.**  Every step leaves the sagas alone or is a step of theirs. -/
theorem step_saga (h : step cfg s l = some u) :
    u.saga = s.saga ∨ ∃ l', Saga.step cfg s.saga l' = some u.saga := by
  cases l with
  | parent order m =>
    simp only [step] at h
    split at h
    · obtain ⟨saga, hs, rfl⟩ := Option.map_eq_some_iff.mp h
      exact .inr ⟨_, hs⟩
    · cases h
  | spawn order =>
    simp only [step] at h
    split at h <;> cases h
    exact .inl rfl
  | child order m =>
    simp only [step] at h
    split at h
    · cases h
    · next i hi =>
      split at h
      · obtain ⟨⟨w', i'⟩, hm, rfl⟩ := Option.map_eq_some_iff.mp h
        rcases move_cases hm with ⟨input, a, phase, t, -, -, -, hw, -⟩ | ⟨rfl, -⟩
        · have hw : childWork order a phase input s.saga.world = some (w', t) := hw
          rcases childWork_environment cfg hw with rfl | ⟨e, he⟩
          · exact .inl rfl
          · refine .inr ⟨.env e, ?_⟩
            simp [Saga.step, familyStep, he]
        · exact .inl rfl
      · cases h
  | env e =>
    simp only [step] at h
    split at h
    · cases h
    · obtain ⟨saga, hs, rfl⟩ := Option.map_eq_some_iff.mp h
      exact .inr ⟨_, hs⟩
  | ask order owned => cases h; exact .inl rfl
  | request pid =>
    simp only [step] at h
    split at h
    · next order ask _ =>
      cases ask with
      | signal seen =>
        simp only [requestStep] at h
        split at h <;> cases h
        · exact .inl rfl
        · exact .inr ⟨.flow order (.signal .cancelRequested), rfl⟩
      | read owned => cases h; exact .inl rfl
      | reread => cases h; exact .inl rfl
      | answered outcome => cases h
    · cases h
  | requestLost pid =>
    simp only [step] at h
    split at h <;> cases h
    exact .inl rfl

/-- The sagas' part of a run is a run of the sagas. -/
theorem saga_run {ok : System → Label → Prop} {is : List Label}
    (h : Run (step cfg) ok .empty is s) :
    ∃ js, Run (Saga.step cfg) Always .empty js s.saga := by
  induction h with
  | nil => exact ⟨[], .nil⟩
  | snoc _ _ hs ih =>
    obtain ⟨js, hjs⟩ := ih
    rcases step_saga hs with he | ⟨l', hl⟩
    · rw [he]
      exact ⟨js, hjs⟩
    · exact ⟨js ++ [l'], hjs.snoc trivial hl⟩

end

/-! ### One order -/

/-- What one step is, for one order: a move of its parent or of its child, the start of
the child, a kitchen's move, the customer's signal, or none of these. -/
inductive Seen (cfg : Config) (order : OrderId) (s u : System) (l : Label) : Prop
  | parent (m : Move Input Workflow.Signal Workflow.Event) (i' : Parent)
      (hl : l = .parent order m) (htold : Told (s.children order) m)
      (hm : move Workflow.flow (Saga.worker cfg) order s.saga.world (s.parent order) m =
        some (u.saga.world, i'))
      (hp : u.parent order = i') (hc : u.children order = s.children order)
      (he : u.executed order = s.executed order ++ executes s order m)
  | child (m : Move ChildInput Delivery.News Delivery.Event) (i i' : Child)
      (hl : l = .child order m) (hi : s.children order = some i)
      (hask : m = .event .cancel → asksCancel (s.parent order).pos.pc = true)
      (hm : move Delivery.flow childWorker order s.saga.world i m = some (u.saga.world, i'))
      (hp : u.parent order = s.parent order) (hc : u.children order = some i')
      (he : u.executed order = s.executed order)
  | spawned (hl : l = .spawn order) (hpc : (s.parent order).pos.pc = .startChild)
      (hs : s.children order = none) (hst : u.status order = s.status order)
      (hp : u.parent order = s.parent order)
      (hc : u.children order = some (.enter childWorker {}))
      (he : u.executed order = s.executed order)
  | kitchen (m : OtherMove) (hm : m = .preparing ∨ m = .ready)
      (hs : s.status order = some m.expected) (hst : u.status order = some m.target)
      (hp : u.parent order = s.parent order) (hc : u.children order = s.children order)
      (he : u.executed order = s.executed order)
  | heard (pid : ℕ) (hl : l = .request pid) (hopen : ended (s.parent order).pos.pc = false)
      (hst : u.status order = s.status order)
      (hp : u.parent order = hear (s.parent order)) (hc : u.children order = s.children order)
      (he : u.executed order = s.executed order)
  | rest (hst : u.status order = s.status order)
      (hp : u.parent order = s.parent order) (hc : u.children order = s.children order)
      (he : u.executed order = s.executed order)

section

variable {cfg : Config} {s u : System} {l : Label} {order other : OrderId}

theorem status_view : s.status order = (Saga.view order s.saga.world).status := rfl

/-- A child's attempt does not move another order's row. -/
theorem childWork_frame {a : Delivery.Activity} {phase : Unit} {input : ChildInput}
    {t : Attempt Unit Delivery.Answer} {w w' : Saga.World}
    (h : childWork other a phase input w = some (w', t)) (hne : order ≠ other) :
    w'.orders order = w.orders order := by
  have hset : ∀ row, (w.setOrder other row).orders order = w.orders order := fun row =>
    Function.update_of_ne hne _ _
  have hmark : ∀ m now, (mark w other m now).1.orders order = w.orders order := by
    intro m now
    unfold mark
    split
    · exact hset _
    · rfl
  cases a <;> obtain ⟨rfl, -⟩ := Prod.mk.inj (Option.some.inj h) <;>
    first | exact hmark _ _ | exact hset _ | rfl

/-- A move of the parent of another order. -/
theorem seen_parent_ne {m : Move Input Workflow.Signal Workflow.Event} {i' : Parent}
    (hne : order ≠ other)
    (hm : move Workflow.flow (Saga.worker cfg) other s.saga.world (s.parent other) m =
      some (u.saga.world, i'))
    (hi : u.saga.insts = Function.update s.saga.insts other i')
    (hc : u.children = s.children)
    (he : u.executed = Function.update s.executed other (s.executed other ++ executes s other m)) :
    Seen cfg order s u l := by
  refine .rest ?_ ?_ (by rw [hc]) (by rw [he, Function.update_of_ne hne])
  · rcases move_cases hm with ⟨input, a, phase, t, -, -, -, hw, -⟩ | ⟨hw, -⟩
    · exact congrArg Saga.View.status (Saga.work_frame hw hne)
    · rw [System.status, hw]
      rfl
  · show u.saga.insts order = s.saga.insts order
    rw [hi, Function.update_of_ne hne]

/-- **One step, as one order sees it.** -/
theorem seen (order : OrderId) (h : step cfg s l = some u) : Seen cfg order s u l := by
  cases l with
  | parent other m =>
    simp only [step] at h
    split at h
    · next htold =>
      obtain ⟨saga, hs, rfl⟩ := Option.map_eq_some_iff.mp h
      obtain ⟨⟨w', i'⟩, hm, rfl⟩ := Option.map_eq_some_iff.mp hs
      by_cases ho : order = other
      · subst ho
        refine .parent m i' rfl htold hm ?_ rfl ?_
        · exact Function.update_self ..
        · exact Function.update_self ..
      · exact seen_parent_ne ho hm rfl rfl rfl
    · cases h
  | spawn other =>
    simp only [step] at h
    split at h
    · next hc =>
      cases h
      by_cases ho : order = other
      · subst ho
        exact .spawned rfl hc.1 hc.2 rfl rfl (Function.update_self ..) rfl
      · exact .rest rfl rfl (Function.update_of_ne ho ..) rfl
    · cases h
  | child other m =>
    simp only [step] at h
    split at h
    · cases h
    · next i hi =>
      split at h
      · next hask =>
        obtain ⟨⟨w', i'⟩, hm, rfl⟩ := Option.map_eq_some_iff.mp h
        by_cases ho : order = other
        · subst ho
          exact .child m i i' rfl hi hask hm rfl (Function.update_self ..) rfl
        · refine .rest ?_ rfl (Function.update_of_ne ho ..) rfl
          rcases move_cases hm with ⟨input, a, phase, t, -, -, -, hw, -⟩ | ⟨rfl, -⟩
          · have hw : childWork other a phase input s.saga.world = some (w', t) := hw
            exact congrArg statusOf (childWork_frame hw ho)
          · rfl
      · cases h
  | env e =>
    simp only [step] at h
    split at h
    · cases h
    · next hof =>
      obtain ⟨saga, hs, rfl⟩ := Option.map_eq_some_iff.mp h
      obtain ⟨w', he, rfl⟩ := Option.map_eq_some_iff.mp hs
      have hview : ∀ {st : Option OrderStatus}, (Saga.view order w').status = st →
          (System.mk ⟨w', s.saga.insts⟩ s.children s.requests s.executed).status order = st := id
      rcases Saga.environment_spec order he with hv | ⟨m, now, rfl, hst, hv⟩ | ⟨rest, -, -, hv⟩
      · exact .rest (hview (by rw [hv]; rfl)) rfl rfl rfl
      · refine .kitchen m ?_ hst (hview (by rw [hv])) rfl rfl rfl
        cases m <;> simp [ofDelivery] at hof ⊢
      · refine .rest (hview ?_) rfl rfl rfl
        rw [hv, Saga.finished]
        split <;> rfl
  | ask other owned => cases h; exact .rest rfl rfl rfl rfl
  | request pid =>
    simp only [step] at h
    split at h
    · next other ask _ =>
      cases ask with
      | signal seen =>
        simp only [requestStep] at h
        split at h
        · cases h; exact .rest rfl rfl rfl rfl
        · next hopen =>
          cases h
          by_cases ho : order = other
          · subst ho
            exact .heard pid rfl (by simpa using hopen) rfl (Function.update_self ..) rfl rfl
          · exact .rest rfl (Function.update_of_ne ho ..) rfl rfl
      | read owned => cases h; exact .rest rfl rfl rfl rfl
      | reread => cases h; exact .rest rfl rfl rfl rfl
      | answered outcome => cases h
    · cases h
  | requestLost pid =>
    simp only [step] at h
    split at h <;> cases h
    exact .rest rfl rfl rfl rfl

end

/-! ### Schedules -/

/-- The steps of an activity of the parent that is answered, with one remote call or two. -/
def once (order : OrderId) : List Label := [.parent order (.work ⟨0, .ok⟩), .parent order .report]

def twice (order : OrderId) : List Label := .parent order (.work ⟨0, .ok⟩) :: once order

/-- An activity of the child that dispatch answers so. -/
def childOnce (order : OrderId) (outcome : Dispatch.Outcome) : List Label :=
  [.child order (.work ⟨0, outcome⟩), .child order .report]

/-- A signal to the child that it has been waiting for. -/
def childWakes (order : OrderId) (i : CourierSignal) : List Label :=
  [.child order (.signal (.signal i)), .child order (.event .wake)]

/-- An order up to the restaurant's acceptance, with its child running. -/
def upToDelivery (order : OrderId) : List Label :=
  [.env (.setStock "r" "i" 5)] ++ once order ++ twice order ++ twice order ++ once order ++
    [.parent order (.signal (.restaurantDecision .accept)), .parent order (.event .wake),
      .spawn order, .parent order (.event .childStarted)] ++ once order

/-- The kitchen cooks, and a courier is assigned. -/
def upToRider (order : OrderId) : List Label :=
  [.env (.otherMove order .preparing 0), .env (.otherMove order .ready 0)] ++
    childWakes order .foodReady ++ childOnce order (.offered "f" "c") ++
    childWakes order (.offerAccepted "f" "c") ++ childOnce order .ok

/-- The courier takes the food. -/
def upToPickup (order : OrderId) : List Label :=
  childWakes order (.courierPickedUp "c") ++ childOnce order .ok

/-- The courier delivers, and the order is settled. -/
def upToSettled (order : OrderId) : List Label :=
  childWakes order (.courierDelivered "c") ++ childOnce order .ok ++
    [.parent order (.signal (.childEnded .delivered)), .parent order (.event .wake)] ++
    once order ++ twice order

def oneCart : Config where
  cart _ := ⟨"h", "r", [⟨"i", 2⟩], 700, "EUR", "tok"⟩

end Joint

end Order
