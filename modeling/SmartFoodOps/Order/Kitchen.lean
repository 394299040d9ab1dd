/-
`KitchenService.decide`, and what a verdict hears that comes again.

The kitchen's verdict travels to the workflow as a signal; once the row has left
CONFIRMED, `decide` answers from the row alone.  What was decided is then read off the
status and the cancellation reason, although an accepted order can be cancelled later.

* `classify`, `step` — the calls of `decide`, beside the sagas;
* `Explained` — an order that was accepted is cancelled for two reasons only;
* `applied_of_run` — an applied verdict stays applied, and explains the row from then on;
* `repeated_of_run` — the verdict that was applied is answered again, and the other one
  refused, unless the customer has cancelled the order since.

Left out: the texts of the log.
-/
import SmartFoodOps.Order.Joint

open Machine Durable
open Dispatch (OrderId)

namespace Order

namespace Kitchen

open Workflow (Verdict)
open Inventory (RestaurantId)
open Saga (SagaLabel)
open Lifecycle (Follows History Keeps Writer)

/-! ### The call -/

structure Config where
  saga : Saga.Config
  /-- `brand_id` of the placement. -/
  brand : OrderId → Option RestaurantId

/-- What `decide` returns or raises. -/
inductive Outcome
  | decided (signalled : Bool) (status : OrderStatus)
  | alreadyDecided (message : String)
  | kitchenStateConflict (actual : OrderStatus)
  | orderNotFound
  | sagaUnavailable
  deriving DecidableEq, Repr

/-- `_ACCEPTED_FAMILY`. -/
def acceptedFamily : List OrderStatus :=
  [.accepted, .preparing, .ready, .pickedUp, .delivered, .settled]

/-- `_CANCEL_FAMILY`. -/
def cancelFamily : List OrderStatus := [.cancelling, .cancelled, .refunded]

/-- `cancel_reason`. -/
def cancelReason (r : OrderRow) : Option CancelReason := r.cancellation.map (·.1)

/-- The answer about an order of the cancel family. -/
def classifyCancelled (r : OrderRow) (verdict : Verdict) : Outcome :=
  if cancelReason r = some .restaurantRejected then
    if verdict = .reject then .decided false r.status
    else .alreadyDecided "order was already rejected"
  else if cancelReason r = some .restaurantTimeout then
    .alreadyDecided "the decision window timed out"
  else if cancelReason r = some .customerCancelled then
    .alreadyDecided "the customer cancelled this order"
  else .kitchenStateConflict r.status

/-- The answer that the row gives; `none` goes on to the signal. -/
def classify (r : OrderRow) (verdict : Verdict) : Option Outcome :=
  if r.status = .confirmed then none
  else if r.status ∈ acceptedFamily then
    some (if verdict = .accept then .decided false r.status
      else .alreadyDecided "order was already accepted")
  else if r.status ∈ cancelFamily then some (classifyCancelled r verdict)
  else some (.kitchenStateConflict r.status)

/-- A call between two of its awaits. -/
inductive Stage
  | read
  | signal (seen : OrderStatus)
  | answered (outcome : Outcome)
  deriving DecidableEq, Repr

structure Call where
  /-- The restaurant that the caller's token claims. -/
  restaurant : RestaurantId
  order : OrderId
  verdict : Verdict
  stage : Stage := .read
  deriving DecidableEq, Repr

/-- What follows the read of `_owned`. -/
def afterRead (row : Option OrderRow) (verdict : Verdict) : Stage :=
  match row with
  | none => .answered .orderNotFound
  | some r => match classify r verdict with
    | some outcome => .answered outcome
    | none => .signal r.status

/-! ### The calls beside the sagas -/

structure System where
  saga : Saga.System
  /-- What `repoint_brand` wrote where `brand_id` was null. -/
  backfilled : OrderId → Option RestaurantId
  calls : List Call

def System.empty : System := ⟨.empty, fun _ => none, []⟩

inductive Label
  | saga (l : SagaLabel)
  | backfill (restaurant brand : RestaurantId)
  | decide (restaurant : RestaurantId) (order : OrderId) (verdict : Verdict)
  | call (pid : ℕ)
  /-- The signal's RPC fails, before or after the signal was delivered. -/
  | callLost (pid : ℕ) (delivered : Bool)
  deriving DecidableEq

section

variable (cfg : Config) (s : System)

def System.row (order : OrderId) : Option OrderRow := s.saga.world.orders order

/-- The claim is the branch of the order or its brand. -/
def Owns (restaurant : RestaurantId) (order : OrderId) : Prop :=
  restaurant = (cfg.saga.cart order).restaurantId ∨
    (cfg.brand order).or (s.backfilled order) = some restaurant

instance (restaurant : RestaurantId) (order : OrderId) : Decidable (Owns cfg s restaurant order) :=
  inferInstanceAs (Decidable (_ ∨ _))

/-- `_owned`. -/
def owned (restaurant : RestaurantId) (order : OrderId) : Option OrderRow :=
  if Owns cfg s restaurant order then s.row order else none

def answer (pid : ℕ) (call : Call) (stage : Stage) : System :=
  { s with calls := s.calls.set pid { call with stage := stage } }

/-- The workflow hears the verdict. -/
def signalDecision (order : OrderId) (verdict : Verdict) : System :=
  let i := s.saga.insts order
  let heard := { i with pos := Workflow.onSignal i.pos (.restaurantDecision verdict) }
  { s with saga := { s.saga with insts := Function.update s.saga.insts order heard } }

/-- The next await of `decide`. -/
def callStep (pid : ℕ) (call : Call) : Option System :=
  match call.stage with
  | .read => some (answer s pid call (afterRead (owned cfg s call.restaurant call.order) call.verdict))
  | .signal seen =>
    -- a workflow that has ended is gone
    if Joint.ended (s.saga.insts call.order).pos.pc then
      some (answer s pid call (.answered (.alreadyDecided "the decision window has closed")))
    else
      some (answer (signalDecision s call.order call.verdict) pid call
        (.answered (.decided true seen)))
  | .answered _ => none

/-- `repoint_brand`: the rows of the restaurant that have no brand yet. -/
def backfill (restaurant brand : RestaurantId) (order : OrderId) : Option RestaurantId :=
  if (cfg.saga.cart order).restaurantId = restaurant ∧ (s.row order).isSome then
    (s.backfilled order).or (some brand)
  else s.backfilled order

/-- A verdict reaches the workflow through `decide` only. -/
def isDecision : SagaLabel → Bool
  | .flow _ (.signal (.restaurantDecision _)) => true
  | _ => false

def step : Label → Option System
  | .saga l =>
    if isDecision l then none
    else (Saga.step cfg.saga s.saga l).map fun saga => { s with saga := saga }
  | .backfill restaurant brand => some { s with backfilled := backfill cfg s restaurant brand }
  | .decide restaurant order verdict =>
    some { s with calls := s.calls ++ [⟨restaurant, order, verdict, .read⟩] }
  | .call pid =>
    match s.calls[pid]? with
    | some call => callStep cfg s pid call
    | none => none
  | .callLost pid delivered =>
    match s.calls[pid]? with
    | some ⟨restaurant, order, verdict, .signal _⟩ =>
      let t := if delivered && !Joint.ended (s.saga.insts order).pos.pc then
        signalDecision s order verdict else s
      some (answer t pid ⟨restaurant, order, verdict, .read⟩ (.answered .sagaUnavailable))
    | _ => none

end

/-! ### Why an accepted order is cancelled -/

section

variable {r r' : OrderRow} {path : List OrderStatus} {now : ℕ} {reason : CancelReason}

/-- A guarded move records its reason where there is none. -/
theorem cancelReason_moved {expected target : OrderStatus} {event : Option EventType}
    {given : Option CancelReason}
    (h : Lifecycle.moved (some r) expected target event given now = some r') :
    cancelReason r' = cancelReason r ∨ r.status = expected ∧ cancelReason r' = given := by
  rcases @Lifecycle.moved_cases (some r) now expected target event given with he | ⟨q, hq, hs, he⟩
  · rw [h] at he
    rw [Option.some.inj he]
    exact .inl rfl
  · obtain rfl := Option.some.inj hq
    rw [h] at he
    have hcancellation : r'.cancellation =
        r.cancellation.or (given.map fun reason => (reason, now)) := by
      rw [Option.some.inj he, Lifecycle.announce_cancellation]
      rfl
    unfold cancelReason
    rw [hcancellation]
    rcases hr : r.cancellation with _ | c
    · refine .inr ⟨hs, ?_⟩
      cases given <;> rfl
    · exact .inl rfl

/-- The first reason is recorded where an unwind begins. -/
theorem reason_of_write {w : Writer} (hf : Follows r path)
    (hw : w.write (some r) now = some r') (hnone : cancelReason r = none)
    (hsome : cancelReason r' = some reason) :
    (∃ start : Lifecycle.UnwindFrom, r.status = start.status) ∨ w = .tryBeginCancel reason := by
  -- a writer that leaves the reason alone has not recorded it
  have hsame : cancelReason r' ≠ cancelReason r := by
    rw [hnone, hsome]
    exact Option.some_ne_none reason
  have hplain : ∀ {expected target event},
      Lifecycle.moved (some r) expected target event none now = some r' → False := by
    intro expected target event hm
    rcases cancelReason_moved hm with he | ⟨-, he⟩
    · exact hsame he
    · exact hsame (he.trans hnone.symm)
  cases w with
  | createOrder requestHash =>
    obtain rfl := Option.some.inj hw
    exact absurd rfl hsame
  | recordRider rider =>
    obtain rfl := Option.some.inj hw
    exact absurd rfl hsame
  | beginCancel start given =>
    rcases cancelReason_moved hw with he | ⟨hstatus, -⟩
    · exact absurd he hsame
    · exact .inl ⟨start, hstatus⟩
  | tryBeginCancel given =>
    refine .inr ?_
    have hw : (beginCancelFrom (some r) cancellableKitchenStates given now).1 = some r' := hw
    by_cases hin : r.status ∈ cancellableKitchenStates
    · have hr' : (r.moveTo .cancelling now).recordCancellation given now = r' := by
        simpa only [beginCancelFrom, if_pos hin, Option.some.injEq] using hw
      have hcancellation : r'.cancellation = r.cancellation.or (some (given, now)) := by
        rw [← hr']
        rfl
      unfold cancelReason at hnone hsome
      rw [hcancellation, Option.map_eq_none_iff.mp hnone] at hsome
      have hgiven : given = reason := Option.some.inj hsome
      rw [hgiven]
    · have hr' : r = r' := by simpa only [beginCancelFrom, if_neg hin, Option.some.injEq] using hw
      exact absurd (congrArg cancelReason hr'.symm) hsame
  | finishCancel given =>
    rcases cancelReason_moved hw with he | ⟨hstatus, -⟩
    · exact absurd he hsame
    · -- an order that is being cancelled has its record already
      have hrecord := hf.cancellation.mpr (.inl hstatus)
      rw [Option.map_eq_none_iff.mp hnone] at hrecord
      cases hrecord
  | validateAndReserve | authorizePayment | confirmOrder | markAccepted | setPreparing | setReady
  | markPickedUp | markDelivered | settleOrder => exact (hplain hw).elim

end

/-- An order that was accepted is cancelled by its customer, or for want of a rider. -/
def Explained (r : OrderRow) : Prop :=
  (r.milestones .accepted).isSome = true → ∀ reason, cancelReason r = some reason →
    reason = .customerCancelled ∨ reason = .noRiderAvailable

/-- **One write** keeps the explanation. -/
theorem explained_step {h u : History} {w : Lifecycle.Write}
    (he : ∀ r, h.row = some r → Explained r) (hi : Lifecycle.Inv h) (hissued : w.writer.Issued)
    (hs : Lifecycle.step h w = some u) : ∀ r, u.row = some r → Explained r := by
  intro r' hr' haccepted reason hreason
  obtain ⟨hu, -, hkeep⟩ := hi.step hs
  obtain ⟨q, hq, hf'⟩ := hu.resolve_left fun hnone => by
    rw [hnone.1] at hr'
    cases hr'
  obtain rfl : q = r' := Option.some.inj (hq.symm.trans hr')
  have hwrite : w.writer.write h.row w.now = some q := by
    cases hs
    exact hq
  have hrecord : q.cancellation.isSome = true := by
    obtain ⟨c, hc, -⟩ := Option.map_eq_some_iff.mp hreason
    rw [hc]
    rfl
  rcases hi with ⟨hnone, -⟩ | ⟨r, hr, hf⟩
  · -- an order that has just been placed has no record
    have heff := @Lifecycle.effect_write h.row w.now w.writer
    rw [hwrite, hnone] at heff
    cases heff
    cases hrecord
  · rw [hr] at hwrite
    have hbefore : (r.milestones .accepted).isSome = true := by
      refine (hf.milestones .accepted).mpr ⟨rfl, ?_⟩
      have hmem := ((hf'.milestones .accepted).mp haccepted).2
      rcases Lifecycle.path_of_step hs hq with hpath | hpath
      · rwa [hpath] at hmem
      · rw [hpath, List.mem_append, List.mem_singleton] at hmem
        refine hmem.resolve_right fun hst => ?_
        rcases hf'.cancellation.mp hrecord with hc | hc <;> rw [hc] at hst <;> cases hst
    rcases hc : cancelReason r with _ | earlier
    · rcases reason_of_write hf hwrite hc hreason with ⟨start, hstart⟩ | hw
      · have hrank := hf.rank_le_status ((hf.milestones .accepted).mp hbefore).2
        rw [hstart] at hrank
        cases start <;> exact absurd hrank (by decide)
      · rw [hw] at hissued
        exact hissued
    · obtain ⟨q', hq', hk⟩ := hkeep r hr
      obtain rfl : q' = q := Option.some.inj (hq'.symm.trans hq)
      obtain ⟨c, hrc, hearlier⟩ := Option.map_eq_some_iff.mp hc
      have hsame : cancelReason q' = some earlier := by
        unfold cancelReason
        rw [hk.cancellation c hrc, ← hearlier]
        rfl
      obtain rfl : earlier = reason := Option.some.inj (hsame.symm.trans hreason)
      exact he r hr hbefore earlier hc

/-- The writes of the sagas. -/
def Issues (_ : History) (w : Lifecycle.Write) : Prop := w.writer.Issued

/-- What the row can become by the writes of the sagas. -/
def WrittenFrom (h : History) (row : Option OrderRow) : Prop :=
  ∃ ws h', Run Lifecycle.step Issues h ws h' ∧ h'.row = row

theorem WrittenFrom.write {h : History} {row : Option OrderRow} {w : Writer}
    (hw : WrittenFrom h row) (hissued : w.Issued) (now : ℕ) :
    WrittenFrom h (w.write row now) := by
  obtain ⟨ws, h', hws, rfl⟩ := hw
  have hok : Issues h' ⟨w, now⟩ := hissued
  exact ⟨ws ++ [⟨w, now⟩], _, hws.snoc hok rfl, rfl⟩

theorem explained_of_run {ws : List Lifecycle.Write} {h : History}
    (hrun : Run Lifecycle.step Issues .empty ws h) : ∀ r, h.row = some r → Explained r := by
  induction hrun with
  | nil =>
    intro r hr
    cases hr
  | snoc hrun hissued hs ih =>
    have hi := (Lifecycle.inv_of_run Lifecycle.inv_empty hrun.forget).1
    exact explained_step ih hi hissued hs

/-! ### What was applied stays applied -/

/-- The verdict is the one that the workflow applied: the order has been ACCEPTED, or is
cancelled as rejected. -/
def Applied (verdict : Verdict) (r : OrderRow) : Prop :=
  match verdict with
  | .accept => (r.milestones .accepted).isSome = true
  | .reject => cancelReason r = some .restaurantRejected

theorem Applied.keeps {verdict : Verdict} {r r' : OrderRow} (h : Applied verdict r)
    (hk : Keeps r r') : Applied verdict r' := by
  cases verdict with
  | accept =>
    obtain ⟨t, ht⟩ := Option.isSome_iff_exists.mp h
    exact Option.isSome_iff_exists.mpr ⟨t, hk.milestones .accepted t ht⟩
  | reject =>
    obtain ⟨c, hc, hreason⟩ := Option.map_eq_some_iff.mp h
    exact Option.map_eq_some_iff.mpr ⟨c, hk.cancellation c hc, hreason⟩

section

variable {cfg : Config} {s u : System} {ls : List Label} {order : OrderId}

/-- Every step leaves the sagas alone or is a step of theirs. -/
theorem step_saga {l : Label} (h : step cfg s l = some u) :
    u.saga = s.saga ∨ ∃ l', Saga.step cfg.saga s.saga l' = some u.saga := by
  cases l with
  | saga l =>
    simp only [step] at h
    split at h
    · cases h
    · obtain ⟨saga, hs, rfl⟩ := Option.map_eq_some_iff.mp h
      exact .inr ⟨l, hs⟩
  | backfill restaurant brand =>
    cases h
    exact .inl rfl
  | decide restaurant order verdict =>
    cases h
    exact .inl rfl
  | call pid =>
    simp only [step] at h
    split at h
    · next call hcall =>
      unfold callStep at h
      split at h
      · cases h
        exact .inl rfl
      · split at h
        · cases h
          exact .inl rfl
        · cases h
          exact .inr ⟨.flow call.order (.signal (.restaurantDecision call.verdict)), rfl⟩
      · cases h
    · cases h
  | callLost pid delivered =>
    simp only [step] at h
    split at h
    · next restaurant order verdict seen hcall =>
      split at h
      · cases h
        exact .inr ⟨.flow order (.signal (.restaurantDecision verdict)), rfl⟩
      · cases h
        exact .inl rfl
    · cases h

/-- The sagas' part of a run is a run of the sagas. -/
theorem saga_run (h : Run (step cfg) Always s ls u) :
    ∃ is, Run (Saga.step cfg.saga) Always s.saga is u.saga := by
  induction h with
  | nil => exact ⟨[], .nil⟩
  | snoc _ _ hs ih =>
    obtain ⟨is, ih⟩ := ih
    rcases step_saga hs with hsame | ⟨l, hl⟩
    · rw [hsame]
      exact ⟨is, ih⟩
    · exact ⟨is ++ [l], ih.snoc trivial hl⟩

theorem writtenFrom_of_run {is : List SagaLabel} {a b : Saga.System} {h : History}
    (hexp : ∀ k, Lifecycle.Expects (a.insts k).pos.pc) (hrow : h.row = a.world.orders order)
    (hrun : Run (Saga.step cfg.saga) Always a is b) : WrittenFrom h (b.world.orders order) := by
  have hstart : ∀ o, o = order → WrittenFrom h (a.world.orders o) := by
    rintro o rfl
    exact ⟨[], h, .nil, hrow⟩
  exact Lifecycle.rows_of_run (P := fun o row => o = order → WrittenFrom h row)
    (fun o row w now hissued hp ho => (hp ho).write hissued now) hexp hstart hrun order rfl

/-- **A verdict that was applied stays applied**, and explains the row from then on. -/
theorem applied_of_run {is : List Label} {verdict : Verdict} {r : OrderRow}
    (hs : Run (step cfg) Always .empty is s) (hr : s.row order = some r)
    (happlied : Applied verdict r) (hrun : Run (step cfg) Always s ls u) :
    ∃ r' path, u.row order = some r' ∧ Applied verdict r' ∧ Explained r' ∧ Follows r' path := by
  obtain ⟨js, hjs⟩ := saga_run hs
  obtain ⟨ks, hks⟩ := saga_run hrun
  have hexp : ∀ k : OrderId, Lifecycle.Expects (Saga.System.empty.insts k).pos.pc :=
    fun _ => True.intro
  have hempty : History.empty.row = Saga.System.empty.world.orders order := rfl
  obtain ⟨ws, h, hws, hrow⟩ := writtenFrom_of_run hexp hempty hjs
  obtain ⟨ws', h', hws', hrow'⟩ :=
    writtenFrom_of_run (fun k => Lifecycle.expects_run (hexp k) hjs) hrow hks
  have hi := (Lifecycle.inv_of_run Lifecycle.inv_empty hws.forget).1
  obtain ⟨hi', -, hkeep⟩ := Lifecycle.inv_of_run hi hws'.forget
  obtain ⟨r', hr', hk⟩ := hkeep r (hrow.trans hr)
  obtain ⟨q, hq, hf⟩ := hi'.resolve_left fun hnone => by
    rw [hnone.1] at hr'
    cases hr'
  obtain rfl : q = r' := Option.some.inj (hq.symm.trans hr')
  exact ⟨q, h'.path, hrow'.symm.trans hr', happlied.keeps hk,
    explained_of_run (hws.append hws') q hr', hf⟩

end

/-! ### A verdict that comes again -/

/-- Why the other verdict comes too late. -/
def already : Verdict → String
  | .accept => "order was already accepted"
  | .reject => "order was already rejected"

/-- What a verdict hears about an order on which `applied` was applied. -/
structure Hears (applied verdict : Verdict) (r : OrderRow) (outcome : Outcome) : Prop where
  /-- The same verdict is answered as one that was applied. -/
  same : verdict = applied → cancelReason r ≠ some .customerCancelled →
    outcome = .decided false r.status
  other : verdict ≠ applied → cancelReason r ≠ some .customerCancelled →
    outcome = .alreadyDecided (already applied)
  /-- The customer has cancelled since: then it does not matter which verdict comes. -/
  mooted : cancelReason r = some .customerCancelled →
    outcome = .alreadyDecided "the customer cancelled this order"

section

variable {r : OrderRow} {path : List OrderStatus} {verdict : Verdict}

/-- Where an order is that was accepted. -/
theorem status_of_accepted (hf : Follows r path) (h : Applied .accept r) :
    r.status ∈ acceptedFamily ∨ r.status = .cancelling ∨ r.status = .cancelled := by
  have hrank := hf.rank_le_status ((hf.milestones .accepted).mp h).2
  have hrefunded := hf.ne_refunded
  rcases hst : r.status <;> rw [hst] at hrank hrefunded <;>
    first | exact absurd hrank (by decide) | exact absurd rfl hrefunded | simp [acceptedFamily]

theorem classify_of_cancelled (h : r.status = .cancelling ∨ r.status = .cancelled) :
    classify r verdict = some (classifyCancelled r verdict) := by
  unfold classify
  rcases h with h | h <;> simp [h, acceptedFamily, cancelFamily]

theorem hears_accepted (hf : Follows r path) (happlied : Applied .accept r) (he : Explained r)
    (hrider : cancelReason r ≠ some .noRiderAvailable) :
    ∃ outcome, classify r verdict = some outcome ∧ Hears .accept verdict r outcome := by
  rcases status_of_accepted hf happlied with hin | hcancelled
  · have hne : r.status ≠ .confirmed := by
      intro hc
      rw [hc] at hin
      exact absurd hin (by decide)
    have hrecord : ¬ r.cancellation.isSome = true := by
      rw [hf.cancellation]
      rintro (hc | hc) <;> rw [hc] at hin <;> exact absurd hin (by decide)
    have hlive : cancelReason r = none :=
      Option.map_eq_none_iff.mpr (Option.not_isSome_iff_eq_none.mp hrecord)
    have hclass : classify r verdict = some (if verdict = .accept then .decided false r.status
        else .alreadyDecided "order was already accepted") := by
      unfold classify
      rw [if_neg hne, if_pos hin]
    refine ⟨_, hclass, fun hsame _ => if_pos hsame, fun hother _ => if_neg hother, fun hm => ?_⟩
    rw [hlive] at hm
    cases hm
  · obtain ⟨reason, hreason⟩ : ∃ reason, cancelReason r = some reason := by
      obtain ⟨c, hc⟩ := Option.isSome_iff_exists.mp (hf.cancellation.mpr hcancelled)
      exact ⟨c.1, Option.map_eq_some_iff.mpr ⟨c, hc, rfl⟩⟩
    obtain rfl : reason = .customerCancelled := by
      refine (he happlied reason hreason).resolve_right ?_
      rintro rfl
      exact hrider hreason
    have houtcome : classifyCancelled r verdict =
        .alreadyDecided "the customer cancelled this order" := by
      simp [classifyCancelled, hreason]
    refine ⟨_, (classify_of_cancelled hcancelled).trans (congrArg some houtcome),
      fun _ hnot => absurd hreason hnot, fun _ hnot => absurd hreason hnot, fun _ => rfl⟩

theorem hears_rejected (hf : Follows r path) (happlied : Applied .reject r) :
    ∃ outcome, classify r verdict = some outcome ∧ Hears .reject verdict r outcome := by
  have hreason : cancelReason r = some .restaurantRejected := happlied
  have hcancelled : r.status = .cancelling ∨ r.status = .cancelled := by
    refine hf.cancellation.mp ?_
    obtain ⟨c, hc, -⟩ := Option.map_eq_some_iff.mp hreason
    rw [hc]
    rfl
  have houtcome : classifyCancelled r verdict = if verdict = .reject then .decided false r.status
      else .alreadyDecided "order was already rejected" := if_pos hreason
  refine ⟨_, (classify_of_cancelled hcancelled).trans (congrArg some houtcome),
    fun hsame _ => if_pos hsame, fun hother _ => if_neg hother, fun hm => ?_⟩
  rw [hreason] at hm
  cases hm

end

section

variable {cfg : Config}

/-- **A verdict that comes again**, at any time after one was applied and from whoever owns
the order: the row answers the call at once.  Nothing is said about an order that no rider
could be found for. -/
theorem repeated_of_run {is ls : List Label} {s u : System} {order : OrderId} {r : OrderRow}
    {applied : Verdict} {pid : ℕ} {call : Call} (hs : Run (step cfg) Always .empty is s)
    (hr : s.row order = some r) (happlied : Applied applied r)
    (hrun : Run (step cfg) Always s ls u) (hcall : u.calls[pid]? = some call)
    (hread : call.order = order ∧ call.stage = .read) (howns : Owns cfg u call.restaurant order) :
    ∃ r', u.row order = some r' ∧ (cancelReason r' ≠ some .noRiderAvailable →
      ∃ v outcome, step cfg u (.call pid) = some v ∧
        v.calls[pid]? = some { call with stage := .answered outcome } ∧
        Hears applied call.verdict r' outcome) := by
  obtain ⟨r', path, hr', happlied', he, hf⟩ := applied_of_run hs hr happlied hrun
  refine ⟨r', hr', fun hrider => ?_⟩
  obtain ⟨outcome, hclass, hhears⟩ : ∃ outcome, classify r' call.verdict = some outcome ∧
      Hears applied call.verdict r' outcome := by
    cases applied with
    | accept => exact hears_accepted hf happlied' he hrider
    | reject => exact hears_rejected hf happlied'
  obtain ⟨rfl, hstage⟩ := hread
  have howned : owned cfg u call.restaurant call.order = some r' := by
    unfold owned
    rw [if_pos howns, hr']
  have hafter : afterRead (some r') call.verdict = .answered outcome := by
    simp [afterRead, hclass]
  refine ⟨answer u pid call (.answered outcome), outcome, ?_, ?_, hhears⟩
  · simp only [step, hcall, callStep, hstage, howned, hafter]
  · obtain ⟨hlt, -⟩ := List.getElem?_eq_some_iff.mp hcall
    show (u.calls.set pid _)[pid]? = _
    rw [List.getElem?_set_self hlt]

end

/-! ### Runs -/

def oneOrder : Config where
  saga := { cart := fun _ => ⟨"h", "r", [⟨"i", 2⟩], 700, "EUR", "tok"⟩ }
  brand _ := some "b"

/-- An activity of one step. -/
def once (order : OrderId) : List Label :=
  [.saga (.flow order (.work ⟨0, .ok⟩)), .saga (.flow order .report)]

/-- An activity of two steps. -/
def twice (order : OrderId) : List Label := .saga (.flow order (.work ⟨0, .ok⟩)) :: once order

/-- An order whose branch accepts it: the call is answered 202, and the verdict applied. -/
def upToAccepted (order : OrderId) : List Label :=
  [.saga (.env (.setStock "r" "i" 5))] ++ once order ++ twice order ++ twice order ++ once order ++
    [.decide "r" order .accept, .call 0, .call 0, .saga (.flow order (.event .wake)),
      .saga (.flow order (.event .childStarted))] ++ once order

/-- The brand accepts again while the food is prepared. -/
def againPreparing (order : OrderId) : List Label :=
  [.saga (.env (.otherMove order .preparing 0)), .decide "b" order .accept]

/-- The branch accepts again after the customer has cancelled. -/
def againCancelled (order : OrderId) : List Label :=
  [.saga (.flow order (.signal .cancelRequested)), .saga (.flow order (.event .wake))] ++
    once order ++ [.decide "r" order .accept]

def acceptCall (restaurant : RestaurantId) (order : OrderId) (stage : Stage) : Call :=
  ⟨restaurant, order, .accept, stage⟩

/-- The first call was answered 202, and the order has been ACCEPTED. -/
def acceptedFirst (s : System) (order : OrderId) : Bool :=
  (s.calls[0]?).map (·.stage) = some (.answered (.decided true .confirmed)) &&
    (s.row order).any fun r => r.status = .accepted && (r.milestones .accepted).isSome

theorem applied_of_acceptedFirst {s : System} {order : OrderId}
    (h : acceptedFirst s order = true) : ∃ r, s.row order = some r ∧ Applied .accept r := by
  obtain ⟨r, hr, ha⟩ := (Option.any_eq_true _ _).mp (Bool.and_eq_true_iff.mp h).2
  exact ⟨r, hr, (Bool.and_eq_true_iff.mp ha).2⟩

theorem repeated_of_run_preparing : ∃ s u v r,
    Run (step oneOrder) Always .empty (upToAccepted "o") s ∧ acceptedFirst s "o" = true ∧
      Run (step oneOrder) Always s (againPreparing "o") u ∧ u.row "o" = some r ∧
      step oneOrder u (.call 1) = some v ∧
      v.calls[1]? = some (acceptCall "b" "o" (.answered (.decided false r.status))) := by
  obtain ⟨s, hs, hp⟩ : ∃ s, Run (step oneOrder) Always .empty (upToAccepted "o") s ∧
      decide (acceptedFirst s "o" = true ∧
        (execOk (step oneOrder) Always s (againPreparing "o")).map (fun u : System =>
          decide (u.calls[1]? = some (acceptCall "b" "o" .read) ∧
            (u.row "o").map cancelReason = some none)) = some true) = true :=
    exists_run_of_execOk (by decide)
  obtain ⟨hfirst, hexec⟩ := of_decide_eq_true hp
  obtain ⟨u, hu, hdone⟩ := exists_run_of_execOk hexec
  obtain ⟨hcall, hreason⟩ := of_decide_eq_true hdone
  obtain ⟨r₀, hr₀, happlied⟩ := applied_of_acceptedFirst hfirst
  obtain ⟨r, hr, hanswer⟩ := repeated_of_run hs hr₀ happlied hu hcall ⟨rfl, rfl⟩ (.inr rfl)
  rw [hr] at hreason
  have hnone : cancelReason r = none := Option.some.inj hreason
  obtain ⟨v, outcome, hv, hstage, hhears⟩ := hanswer (by rw [hnone]; rintro ⟨⟩)
  have houtcome := hhears.same rfl (by rw [hnone]; rintro ⟨⟩)
  rw [houtcome] at hstage
  exact ⟨s, u, v, r, hs, hfirst, hu, hr, hv, hstage⟩

/-- **An accepted order that its customer cancels in the kitchen**: the verdict that was
applied is refused when it comes again. -/
theorem accept_refused : ∃ s u v,
    Run (step oneOrder) Always .empty (upToAccepted "o") s ∧ acceptedFirst s "o" = true ∧
      Run (step oneOrder) Always s (againCancelled "o") u ∧
      u.calls[1]? = some (acceptCall "r" "o" .read) ∧ step oneOrder u (.call 1) = some v ∧
      v.calls[1]? = some (acceptCall "r" "o"
        (.answered (.alreadyDecided "the customer cancelled this order"))) := by
  obtain ⟨s, hs, hp⟩ : ∃ s, Run (step oneOrder) Always .empty (upToAccepted "o") s ∧
      decide (acceptedFirst s "o" = true ∧
        (execOk (step oneOrder) Always s (againCancelled "o")).map (fun u : System =>
          decide (u.calls[1]? = some (acceptCall "r" "o" .read) ∧
            ((step oneOrder u (.call 1)).bind fun v => v.calls[1]?) = some (acceptCall "r" "o"
              (.answered (.alreadyDecided "the customer cancelled this order"))))) =
          some true) = true :=
    exists_run_of_execOk (by decide)
  obtain ⟨hfirst, hexec⟩ := of_decide_eq_true hp
  obtain ⟨u, hu, hdone⟩ := exists_run_of_execOk hexec
  obtain ⟨hcall, hstep⟩ := of_decide_eq_true hdone
  obtain ⟨v, hv, hanswer⟩ := Option.bind_eq_some_iff.mp hstep
  exact ⟨s, u, v, hs, hfirst, hu, hcall, hv, hanswer⟩

end Kitchen

end Order
