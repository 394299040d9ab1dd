/-
The delivery workflows of all orders, over one dispatch service.

Each dispatch activity sends a request and waits for its answer.  An attempt that is
lost leaves its operation running, and the next attempt sends the request again, so a
call is executed at least once; the operations of all orders and the riders' taps
interleave at every store call.

* `World.log` is history: the offers, the assignments and the cancels there were, and
  what the courier relay has been given to deliver.  A relayed fact reaches its workflow
  any number of times, or never;
* every other activity answers, or fails for good, as the label says;
* `step_dispatch` — what the workflows and riders do is a run of the dispatch service.
-/
import SmartFoodOps.Dispatch.Offers
import SmartFoodOps.Order.Delivery

open Machine Durable Dispatch

namespace Order

namespace Cascade

open Delivery

inductive Fact
  /-- The rider was locked for the order. -/
  | offered (d : OrderId) (rider : RiderId) (offer : OfferId)
  /-- The row of the order moved to ASSIGNED. -/
  | assigned (d : OrderId) (rider : RiderId) (offer : OfferId)
  /-- A `cancel` of the order has answered. -/
  | cancelled (d : OrderId)
  /-- The courier relay was asked to tell the workflow. -/
  | relayed (d : OrderId) (i : CourierSignal)
  deriving DecidableEq, Repr

structure World where
  dispatch : Dispatch.System
  log : List Fact

/-- What a store call, made on `t`, adds to the log. -/
def facts (t : Tables) : Op → Op → List Fact
  | .reserve d _, .putOffering _ rider offer => [.offered d rider offer]
  | .assign rider offer d, _ =>
    (if (DeliveryStore.assign (t.deliveries d) offer).isSome then [.assigned d rider offer] else [])
      ++ [.relayed d (.offerAccepted offer rider)]
  | .readAccepted rider offer d, .answered .assigned => [.relayed d (.offerAccepted offer rider)]
  | .markPickedUp rider d, .answered .ok => [.relayed d (.courierPickedUp rider)]
  | .readPickedUp rider d, .answered .ok => [.relayed d (.courierPickedUp rider)]
  | .finishDelivered rider d, _ => [.relayed d (.courierDelivered rider)]
  | .cancelOffering d _, .answered _ => [.cancelled d]
  | .cancelAssigned d _, .answered _ => [.cancelled d]
  | .finishCancelled d _, .answered _ => [.cancelled d]
  | _, _ => []

/-- What a step of dispatch adds to the log. -/
def happened (s u : Dispatch.System) : Dispatch.Event → List Fact
  | .run pid _ =>
    match s.ops[pid]?, u.ops[pid]? with
    | some op, some op' => facts s.tables op op'
    | _, _ => []
  | _ => []

/-- One step of the dispatch service. -/
def advance (cap : ℕ) (e : Dispatch.Event) (w : World) : Option World :=
  (Dispatch.step cap w.dispatch e).map fun u => ⟨u, w.log ++ happened w.dispatch u e⟩

/-- A request arrives; its number is the number of requests before it. -/
def World.call (w : World) (c : Call) : World :=
  { w with dispatch := { w.dispatch with ops := w.dispatch.ops ++ [c.begin] } }

/-! ### The activities -/

/-- The ranked candidates of a search, before exclusions; and whether an activity
without a dispatch call succeeds. -/
structure Input where
  candidates : List RiderId
  ok : Bool
  deriving DecidableEq, Repr

/-- The request of a dispatch activity. -/
def dispatchCall (order : OrderId) (candidates : List RiderId) : Activity → Option Call
  | .findAndOffer _ exclude =>
    some (.findAndOffer order ((candidates.filter fun rider => rider ∉ exclude).take 8))
  | .expireOffer offer rider => some (.expireOffer order offer rider)
  | .unassignStalled rider => some (.unassignStalled order rider)
  | .cancelDispatch => some (.cancel order)
  | .recordRider _ | .markPickedUp | .markDelivered => none

def work (order : OrderId) (activity : Activity) (phase : CallPhase) (input : Input) (w : World) :
    Option (World × Attempt CallPhase Answer) :=
  match dispatchCall order input.candidates activity, phase with
  | some c, .send => some (w.call c, .working (.waiting w.dispatch.ops.length))
  | some _, .waiting pid =>
    match w.dispatch.ops[pid]? with
    | some (.answered o) => some (w, .answered (.outcome o))
    | _ => none
  | none, _ => some (w, if input.ok then .answered .done else .refused)

def worker : Worker OrderId World Activity CallPhase Input Answer where
  first := .send
  work := work

/-! ### The system -/

inductive Env
  /-- A rider's tap or presence, or the next store call of an operation. -/
  | dispatch (e : Dispatch.Event)
  /-- CANCEL_DISPATCH, by the parent of a workflow that found no rider. -/
  | noRiderCancel (order : OrderId)
  deriving DecidableEq, Repr

abbrev System := Family OrderId World Pos CallPhase Answer

abbrev Label := Durable.Label OrderId Input News Delivery.Event Env

def System.empty : System := ⟨⟨.empty, []⟩, fun _ => ⟨{}, .working .send⟩⟩

/-- The calls that the rider surface makes. -/
def isTap : Call → Bool
  | .acceptOffer _ _ _ | .pickedUp _ _ | .delivered _ _ => true
  | _ => false

def environment (cap : ℕ) (e : Env) (w : World) : Option World :=
  match e with
  | .dispatch (.start c) => if isTap c then advance cap (.start c) w else none
  | .dispatch e => advance cap e w
  | .noRiderCancel order => advance cap (.start (.cancel order)) w

/-- The relay delivers what it was given, and only a workflow that found no rider has its
dispatch cancelled by its parent. -/
def Permitted (s : System) : Label → Prop
  | .flow d (.signal (.signal i)) => i = .foodReady ∨ Fact.relayed d i ∈ s.world.log
  | .env (.noRiderCancel d) => (s.insts d).pos.pc = .returned .noRider
  | _ => True

instance (s : System) (l : Label) : Decidable (Permitted s l) := by
  unfold Permitted
  split <;> infer_instance

def step (cap : ℕ) (s : System) (l : Label) : Option System :=
  if Permitted s l then familyStep Delivery.flow worker (environment cap) s l else none

/-! ### Inversion -/

section

variable {cap : ℕ} {s u : System} {w w' : World} {l : Label}

/-- A request is a step of dispatch. -/
theorem call_step (cap : ℕ) (w : World) (c : Call) :
    Dispatch.step cap w.dispatch (.start c) = some (w.call c).dispatch := rfl

theorem advance_start (c : Call) : advance cap (.start c) w = some (w.call c) := by
  simp [advance, Dispatch.step, World.call, happened]

/-- What a step can do: a move of one workflow, a tap or presence or store call, or the
parent's cancel. -/
theorem step_cases (h : step cap s l = some u) :
    (∃ d m w' i', l = .flow d m ∧ Permitted s l ∧
      move Delivery.flow worker d s.world (s.insts d) m = some (w', i') ∧
      u = ⟨w', Function.update s.insts d i'⟩) ∨
    (∃ e w', l = .env (.dispatch e) ∧ (∀ c, e = .start c → isTap c = true) ∧
      advance cap e s.world = some w' ∧ u = { s with world := w' }) ∨
    (∃ d, l = .env (.noRiderCancel d) ∧ (s.insts d).pos.pc = .returned .noRider ∧
      u = { s with world := s.world.call (.cancel d) }) := by
  unfold step at h
  split at h
  · next hp =>
    cases l with
    | flow d m =>
      obtain ⟨⟨w', i'⟩, hm, rfl⟩ := Option.map_eq_some_iff.mp h
      exact .inl ⟨d, m, w', i', rfl, hp, hm, rfl⟩
    | env e =>
      obtain ⟨w', he, rfl⟩ := Option.map_eq_some_iff.mp h
      cases e with
      | dispatch e =>
        refine .inr (.inl ⟨e, w', rfl, ?_, ?_, rfl⟩)
        · rintro c rfl
          simp only [environment] at he
          split at he
          · assumption
          · cases he
        · cases e with
          | start c =>
            simp only [environment] at he
            split at he
            · exact he
            · cases he
          | _ => exact he
      | noRiderCancel d =>
        simp only [environment, advance_start, Option.some.injEq] at he
        subst he
        exact .inr (.inr ⟨d, rfl, hp, rfl⟩)
  · cases h

/-- What the worker can do: send the request of the activity, read its answer, or answer
for an activity without a request. -/
theorem work_cases {d : OrderId} {a : Activity} {phase : CallPhase} {input : Input}
    {t : Attempt CallPhase Answer} (h : work d a phase input w = some (w', t)) :
    (∃ c, dispatchCall d input.candidates a = some c ∧ phase = .send ∧ w' = w.call c ∧
      t = .working (.waiting w.dispatch.ops.length)) ∨
    (∃ c pid o, dispatchCall d input.candidates a = some c ∧ phase = .waiting pid ∧
      w.dispatch.ops[pid]? = some (.answered o) ∧ w' = w ∧ t = .answered (.outcome o)) ∨
    (dispatchCall d input.candidates a = none ∧ w' = w ∧ (t = .answered .done ∨ t = .refused)) := by
  unfold work at h
  split at h
  · next c hc => cases h; exact .inl ⟨c, hc, rfl, rfl, rfl⟩
  · next c pid hc =>
    split at h
    · next o ho => cases h; exact .inr (.inl ⟨c, pid, o, hc, rfl, ho, rfl, rfl⟩)
    · cases h
  · next hc =>
    cases h
    refine .inr (.inr ⟨hc, rfl, ?_⟩)
    split
    · exact .inl rfl
    · exact .inr rfl

/-- **Refinement.**  Every step leaves dispatch alone or is a step of dispatch; store
calls are the environment's. -/
theorem step_dispatch (h : step cap s l = some u) :
    u.world = s.world ∨ ∃ e, Dispatch.step cap s.world.dispatch e = some u.world.dispatch ∧
      ((∃ c, e = .start c) ∨ l = .env (.dispatch e)) := by
  rcases step_cases h with ⟨d, m, w', i', -, -, hm, rfl⟩ | ⟨e, w', rfl, -, he, rfl⟩ |
    ⟨d, -, -, rfl⟩
  · rcases move_cases hm with ⟨input, a, phase, t, -, -, -, hw, -⟩ | ⟨rfl, -⟩
    · rcases work_cases hw with ⟨c, -, -, rfl, -⟩ | ⟨-, -, -, -, -, -, rfl, -⟩ | ⟨-, rfl, -⟩
      · exact .inr ⟨.start c, rfl, .inl ⟨c, rfl⟩⟩
      · exact .inl rfl
      · exact .inl rfl
    · exact .inl rfl
  · obtain ⟨v, hv, rfl⟩ := Option.map_eq_some_iff.mp he
    exact .inr ⟨e, hv, .inr rfl⟩
  · exact .inr ⟨.start (.cancel d), rfl, .inl ⟨_, rfl⟩⟩

end

end Cascade

end Order
