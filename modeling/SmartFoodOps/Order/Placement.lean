/-
Placement under one idempotency key.

The order id is derived from the user and the key, so everything here is about
one id: its row, its workflow `ord::{order_id}`, and any number of calls of
`OrderService.place`, with whatever bodies.  Of a body only its hash matters.
A call reads the row, prices its cart, and then goes to Temporal, either to
start the saga or (its cart refused) to ask a running one.

* `AnsweredForOwn` — what an answer that names the order owes to its call;
* `placement_answers_own_cart` — it is kept in every run in which no call comes
  to Temporal where an order of another body stands;
* `placed_for_another_cart` — two calls that both read no row break it: the hash
  is only compared on the row.
-/
import SmartFoodOps.Lib.Machine
import SmartFoodOps.Order.Transitions

open Machine

namespace Order

/-! ### The workflow, as placement sees it -/

/-- `ord::{order_id}`: the body it was started for, `self._placed`, and whether it has
ended. -/
structure PlacementWorkflow where
  requestHash : String
  placed : Option OrderStatus := none
  closed : Bool := false
  deriving DecidableEq, Repr

/-- What `place` answers; `refused` is the PricingError or AddressNotFound it raises,
and `unavailable` the SagaUnavailable and what its other clients raise. -/
inductive PlaceOutcome
  | placed (status : OrderStatus)
  | replayed (status : OrderStatus)
  | pending
  | hashMismatch
  | refused
  | unavailable
  deriving DecidableEq, Repr

/-- Where a call of `place` stands. -/
inductive Placing
  | readRow
  | price
  | attach
  | start
  | awaitAck
  | adopt
  | answered (outcome : PlaceOutcome)
  deriving DecidableEq, Repr

structure PlaceCall where
  requestHash : String
  pc : Placing := .readRow
  deriving DecidableEq, Repr

/-- How the catalog and the address book answer a cart. -/
inductive Pricing
  | priced
  | refused
  | unavailable
  deriving DecidableEq, Repr

/-- What becomes of a call's RPC: it goes through, the customer's patience runs out
first, or it fails. -/
inductive Rpc
  | done
  | timedOut
  | failed
  deriving DecidableEq, Repr

structure Placement where
  row : Option OrderRow
  workflow : Option PlacementWorkflow
  calls : List PlaceCall

def Placement.empty : Placement := ⟨none, none, []⟩

/-! ### The steps of `place` -/

/-- The row read, and the hash check that sits on it. -/
def judgeRow (row : Option OrderRow) (hash : String) : Placing :=
  match row with
  | none => .price
  | some r =>
    if r.requestHash ≠ none ∧ r.requestHash ≠ some hash then .answered .hashMismatch
    else .answered (.replayed r.status)

/-- `attach_placement`, as `_attach_if_running` reads it. -/
def attachPlacement (workflow : Option PlacementWorkflow) : Rpc → Option Placing
  | .timedOut => some (.answered .pending)
  | .failed => some (.answered .refused)
  | .done =>
    match workflow with
    | none => some (.answered .refused)
    | some w =>
      if w.closed then some (.answered .refused)
      else w.placed.map fun status => .answered (.placed status)

/-- The start of `saga.place`: USE_EXISTING attaches to a running workflow, and
REJECT_DUPLICATE refuses a closed one. -/
def startSaga (workflow : Option PlacementWorkflow) (hash : String) :
    Rpc → Option PlacementWorkflow × Placing
  | .timedOut => (workflow, .answered .pending)
  | .failed => (workflow, .answered .unavailable)
  | .done =>
    match workflow with
    | none => (some { requestHash := hash }, .awaitAck)
    | some w => (some w, if w.closed then .adopt else .awaitAck)

/-- The update resolves once the workflow has placed its order. -/
def awaitPlacement (workflow : Option PlacementWorkflow) : Rpc → Option Placing
  | .timedOut => some (.answered .pending)
  | .failed => some (.answered .unavailable)
  | .done =>
    (workflow.bind (·.placed)).map fun status => .answered (.placed status)

/-- The answer for a saga that had closed: whatever row is there. -/
def adoptRow (row : Option OrderRow) : Placing :=
  match row with
  | none => .answered .unavailable
  | some r => .answered (.placed r.status)

/-- One step of one call.  `pricing` and `rpc` tell how its next client answers. -/
def placeStep (s : Placement) (hash : String) (pricing : Pricing) (rpc : Rpc) :
    Placing → Option (Option PlacementWorkflow × Placing)
  | .readRow => some (s.workflow, judgeRow s.row hash)
  | .price =>
    match pricing with
    | .priced => some (s.workflow, .start)
    | .refused => some (s.workflow, .attach)
    | .unavailable => some (s.workflow, .answered .unavailable)
  | .attach => (attachPlacement s.workflow rpc).map fun pc => (s.workflow, pc)
  | .start => some (startSaga s.workflow hash rpc)
  | .awaitAck => (awaitPlacement s.workflow rpc).map fun pc => (s.workflow, pc)
  | .adopt => some (s.workflow, adoptRow s.row)
  | .answered _ => none

/-! ### The steps around it -/

inductive PlacementEvent
  | place (hash : String)
  | call (i : ℕ) (pricing : Pricing) (rpc : Rpc)
  /-- The `create_order` activity runs; its answer may be lost. -/
  | createOrder (answered : Bool)
  /-- The saga or the kitchen moves the row. -/
  | progress (status : OrderStatus)
  | close
  deriving DecidableEq, Repr

/-- `create_order`: insert the row, or adopt the one that is there. -/
def createOrder (row : Option OrderRow) (hash : String) : OrderRow × OrderStatus :=
  match row with
  | none => (.place hash, .placed)
  | some r => (r, r.status)

def placementStep (s : Placement) : PlacementEvent → Option Placement
  | .place hash => some { s with calls := s.calls ++ [{ requestHash := hash }] }
  | .call i pricing rpc =>
    match s.calls[i]? with
    | none => none
    | some c =>
      (placeStep s c.requestHash pricing rpc c.pc).map fun (workflow, pc) =>
        { s with workflow := workflow, calls := s.calls.set i { c with pc := pc } }
  | .createOrder answered =>
    match s.workflow with
    | none => none
    | some w =>
      if w.closed ∨ w.placed ≠ none then none
      else
        let (row, status) := createOrder s.row w.requestHash
        some { s with row := some row,
                      workflow := some { w with placed := if answered then some status else none } }
  | .progress status => some { s with row := s.row.map fun r => { r with status := status } }
  | .close => some { s with workflow := s.workflow.map fun w => { w with closed := true } }

/-! ### What an answer owes to its call -/

/-- The order is the call's own: it exists and was made from a body with its hash. -/
def Placement.OwnOrder (s : Placement) (hash : String) : Prop :=
  ∃ r ∈ s.row, r.requestHash = some hash

/-- Whatever stands or will stand under the id is the call's own. -/
def Placement.OwnWorkflow (s : Placement) (hash : String) : Prop :=
  ∀ w ∈ s.workflow, w.requestHash = hash

instance (s : Placement) (hash : String) : Decidable (s.OwnWorkflow hash) :=
  inferInstanceAs (Decidable (∀ w ∈ s.workflow, w.requestHash = hash))

/-- What the answer of a call says about the order. -/
def AnsweredForOwn (s : Placement) (c : PlaceCall) : Prop :=
  match c.pc with
  | .answered (.placed _) | .answered (.replayed _) => s.OwnOrder c.requestHash
  | .answered .pending => ∀ r ∈ s.row, r.requestHash = some c.requestHash
  | _ => True

/-- A call only comes to Temporal, or to adopting a finished order, where nothing of
another body stands, and no workflow is started for one cart while another cart has
been told that it is pending. -/
def OwnCart (s : Placement) : PlacementEvent → Prop
  | .call i _ rpc => ∀ c ∈ s.calls[i]?,
    match c.pc with
    | .attach =>
      ∀ w ∈ s.workflow, w.closed = false ∨ rpc = .timedOut → w.requestHash = c.requestHash
    | .start => (∀ w ∈ s.workflow, w.requestHash = c.requestHash) ∧
      (s.workflow = none → ∀ d ∈ s.calls, d.pc = .answered .pending →
        d.requestHash = c.requestHash)
    | .adopt => ∀ r ∈ s.row, r.requestHash = some c.requestHash
    | _ => True
  | _ => True

instance (s : Placement) (e : PlacementEvent) : Decidable (OwnCart s e) := by
  cases e with
  | call i pricing rpc =>
    refine @Option.decidableForallMem _ _ (fun c => ?_) _
    rcases c with ⟨hash, pc⟩
    cases pc <;> dsimp only <;> infer_instance
  | _ => exact .isTrue trivial

/-! ### The invariant -/

/-- What every call has been promised about the workflow and the row. -/
def Promised (s : Placement) (c : PlaceCall) : Prop :=
  match c.pc with
  | .awaitAck => ∃ w ∈ s.workflow, w.requestHash = c.requestHash
  | .answered .pending => s.OwnWorkflow c.requestHash
  | .answered (.placed _) | .answered (.replayed _) => s.OwnOrder c.requestHash
  | _ => True

/-- The row was made by the workflow, a workflow that has placed its order has a row,
and every call's promise holds. -/
structure PlacementInv (s : Placement) : Prop where
  made : ∀ r ∈ s.row, ∃ w ∈ s.workflow, r.requestHash = some w.requestHash
  placed : ∀ w ∈ s.workflow, w.placed ≠ none → s.row ≠ none
  promised : ∀ c ∈ s.calls, Promised s c

/-- The calls after one of them has moved. -/
theorem forall_mem_set {α : Type*} {P : α → Prop} {l : List α} {i : ℕ} {a : α}
    (h : ∀ b ∈ l, P b) (ha : P a) : ∀ b ∈ l.set i a, P b := by
  intro b hb
  rcases List.mem_or_eq_of_mem_set hb with hb | rfl
  · exact h b hb
  · exact ha

/-- A step that keeps the row's hash, and the workflow's, keeps every promise. -/
theorem Promised.mono {s t : Placement} {c : PlaceCall} (h : Promised s c)
    (hrow : ∀ r ∈ s.row, ∃ r' ∈ t.row, r'.requestHash = r.requestHash)
    (hw : ∀ w ∈ s.workflow, ∃ w' ∈ t.workflow, w'.requestHash = w.requestHash)
    (hown : s.OwnWorkflow c.requestHash → c.pc = .answered .pending →
      t.OwnWorkflow c.requestHash) : Promised t c := by
  unfold Promised at h ⊢
  split at h
  · obtain ⟨w, hmem, hhash⟩ := h
    obtain ⟨w', hmem', hhash'⟩ := hw w hmem
    exact ⟨w', hmem', hhash'.trans hhash⟩
  · next hpc => exact hown h hpc
  · obtain ⟨r, hmem, hhash⟩ := h
    obtain ⟨r', hmem', hhash'⟩ := hrow r hmem
    exact ⟨r', hmem', hhash'.trans hhash⟩
  · obtain ⟨r, hmem, hhash⟩ := h
    obtain ⟨r', hmem', hhash'⟩ := hrow r hmem
    exact ⟨r', hmem', hhash'.trans hhash⟩
  · trivial

/-- **One step of one call**, taken where nothing of another body stands: it leaves the
workflow or starts its own, and what it comes to is promised. -/
theorem placeStep_promised {s : Placement} {i : ℕ} {c : PlaceCall} {pricing : Pricing}
    {rpc : Rpc} {workflow : Option PlacementWorkflow} {pc : Placing}
    (calls : List PlaceCall) (hI : PlacementInv s) (hc : s.calls[i]? = some c)
    (hok : OwnCart s (.call i pricing rpc))
    (h : placeStep s c.requestHash pricing rpc c.pc = some (workflow, pc)) :
    (workflow = s.workflow ∨ (s.workflow = none ∧
      workflow = some { requestHash := c.requestHash } ∧
      ∀ d ∈ s.calls, d.pc = .answered .pending → d.requestHash = c.requestHash)) ∧
    Promised ⟨s.row, workflow, calls⟩ { c with pc := pc } := by
  obtain ⟨hash, pc₀⟩ := c
  have hok := hok _ hc
  have hprom := hI.promised _ (List.mem_of_getElem? hc)
  -- the row that a placed workflow has was made by it
  have hplaced : ∀ w ∈ s.workflow, w.requestHash = hash → w.placed ≠ none → s.OwnOrder hash := by
    intro w hw hhash hp
    obtain ⟨r, hr⟩ := Option.ne_none_iff_exists'.mp (hI.placed w hw hp)
    obtain ⟨w', hw', hr'⟩ := hI.made r hr
    obtain rfl : w' = w := Option.some.inj (hw'.symm.trans hw)
    exact ⟨r, hr, hhash ▸ hr'⟩
  cases pc₀ with
  | readRow =>
    simp only [placeStep, judgeRow, Option.some.injEq, Prod.mk.injEq] at h
    obtain ⟨rfl, rfl⟩ := h
    refine ⟨.inl rfl, ?_⟩
    cases hr : s.row with
    | none => trivial
    | some r =>
      obtain ⟨w, -, hhash⟩ := hI.made r hr
      dsimp only
      split
      · trivial
      · next hne =>
        refine ⟨r, rfl, ?_⟩
        by_contra hdiff
        exact hne ⟨by simp [hhash], hdiff⟩
  | price =>
    cases pricing <;> (cases h; exact ⟨.inl rfl, trivial⟩)
  | attach =>
    obtain ⟨pc', hpc, he⟩ := Option.map_eq_some_iff.mp h
    cases he
    refine ⟨.inl rfl, ?_⟩
    cases rpc with
    | timedOut => cases hpc; exact fun w hw => hok w hw (.inr rfl)
    | failed => cases hpc; trivial
    | done =>
      cases hw : s.workflow with
      | none => rw [hw] at hpc; cases hpc; trivial
      | some w =>
        rw [hw, attachPlacement] at hpc
        by_cases hclosed : w.closed = true
        · rw [if_pos hclosed] at hpc; cases hpc; trivial
        · rw [if_neg hclosed] at hpc
          obtain ⟨status, hp, rfl⟩ := Option.map_eq_some_iff.mp hpc
          have hhash := hok w hw (.inl (by simpa using hclosed))
          exact hplaced w hw hhash (by simp [hp])
  | start =>
    obtain ⟨hown, hfresh⟩ := hok
    simp only [placeStep, Option.some.injEq] at h
    cases rpc with
    | timedOut => cases h; exact ⟨.inl rfl, hown⟩
    | failed => cases h; exact ⟨.inl rfl, trivial⟩
    | done =>
      cases hw : s.workflow with
      | none =>
        rw [hw] at h
        cases h
        exact ⟨.inr ⟨rfl, rfl, hfresh hw⟩, _, rfl, rfl⟩
      | some w =>
        rw [hw] at h
        cases h
        refine ⟨.inl rfl, ?_⟩
        cases w.closed
        · exact ⟨w, rfl, hown w hw⟩
        · trivial
  | awaitAck =>
    obtain ⟨pc', hpc, he⟩ := Option.map_eq_some_iff.mp h
    cases he
    refine ⟨.inl rfl, ?_⟩
    obtain ⟨w, hw, hhash⟩ := hprom
    cases rpc with
    | timedOut =>
      cases hpc
      intro w' hw'
      obtain rfl : w' = w := Option.some.inj (hw'.symm.trans hw)
      exact hhash
    | failed => cases hpc; trivial
    | done =>
      rw [Option.mem_def.mp hw] at hpc
      obtain ⟨status, hp, rfl⟩ := Option.map_eq_some_iff.mp hpc
      exact hplaced w hw hhash (by simpa using Option.ne_none_iff_exists'.mpr ⟨status, hp⟩)
  | adopt =>
    cases h
    refine ⟨.inl rfl, ?_⟩
    cases hr : s.row with
    | none => trivial
    | some r => exact ⟨r, rfl, hok r hr⟩
  | answered o => cases h

theorem PlacementInv.step {s t : Placement} {e : PlacementEvent} (hI : PlacementInv s)
    (hok : OwnCart s e) (h : placementStep s e = some t) : PlacementInv t := by
  cases e with
  | place hash =>
    cases h
    refine ⟨hI.made, hI.placed, ?_⟩
    intro c hc
    rcases List.mem_append.mp hc with hc | hc
    · exact hI.promised c hc
    · rw [List.mem_singleton.mp hc]
      trivial
  | call i pricing rpc =>
    simp only [placementStep] at h
    split at h
    · cases h
    · next c hc =>
      obtain ⟨⟨workflow, pc⟩, hstep, rfl⟩ := Option.map_eq_some_iff.mp h
      obtain ⟨hwork, hprom⟩ := placeStep_promised (s.calls.set i { c with pc := pc }) hI hc hok
        hstep
      rcases hwork with rfl | ⟨hnone, rfl, hpending⟩
      · exact ⟨hI.made, hI.placed, forall_mem_set hI.promised hprom⟩
      · -- the row is not there yet: it would have been made by a workflow
        have hrow : s.row = none := by
          by_contra hr
          obtain ⟨r, hr⟩ := Option.ne_none_iff_exists'.mp hr
          obtain ⟨w, hw, -⟩ := hI.made r hr
          rw [hnone] at hw
          cases hw
        refine ⟨?_, ?_, forall_mem_set ?_ hprom⟩
        · intro r hr
          rw [hrow] at hr
          cases hr
        · rintro w ⟨⟩ hp
          exact absurd rfl hp
        · intro d hd
          refine (hI.promised d hd).mono (fun r hr => ⟨r, hr, rfl⟩) ?_ ?_
          · intro w hw
            rw [hnone] at hw
            cases hw
          · rintro - hpc w ⟨⟩
            exact (hpending d hd hpc).symm
  | createOrder answered =>
    simp only [placementStep] at h
    split at h
    · cases h
    · next w hw =>
      split at h
      · cases h
      · cases h
        refine ⟨?_, ?_, ?_⟩
        · rintro r ⟨⟩
          refine ⟨_, rfl, ?_⟩
          cases hr : s.row with
          | none => rfl
          | some r =>
            obtain ⟨w', hw', hhash⟩ := hI.made r hr
            obtain rfl : w' = w := Option.some.inj (hw'.symm.trans hw)
            exact hhash
        · rintro w' - -
          simp
        · intro c hc
          refine (hI.promised c hc).mono ?_ ?_ ?_
          · intro r hr
            refine ⟨_, rfl, ?_⟩
            rw [Option.mem_def.mp hr]
            rfl
          · intro w' hw'
            obtain rfl : w' = w := Option.some.inj (hw'.symm.trans hw)
            exact ⟨_, rfl, rfl⟩
          · rintro hown - w' ⟨⟩
            exact hown w hw
  | progress status =>
    cases h
    have hrow : ∀ r ∈ s.row.map fun r => { r with status := status },
        ∃ q ∈ s.row, r.requestHash = q.requestHash := by
      intro r hr
      obtain ⟨q, hq, rfl⟩ := Option.map_eq_some_iff.mp hr
      exact ⟨q, hq, rfl⟩
    refine ⟨?_, ?_, ?_⟩
    · intro r hr
      obtain ⟨q, hq, hhash⟩ := hrow r hr
      rw [hhash]
      exact hI.made q hq
    · intro w hw hp
      simpa using hI.placed w hw hp
    · intro c hc
      refine (hI.promised c hc).mono ?_ (fun w hw => ⟨w, hw, rfl⟩) fun h _ => h
      intro r hr
      exact ⟨{ r with status := status }, by simp [Option.mem_def.mp hr], rfl⟩
  | close =>
    cases h
    have hwork : ∀ w ∈ s.workflow.map fun w => { w with closed := true },
        ∃ q ∈ s.workflow, w.requestHash = q.requestHash ∧ w.placed = q.placed := by
      intro w hw
      obtain ⟨q, hq, rfl⟩ := Option.map_eq_some_iff.mp hw
      exact ⟨q, hq, rfl, rfl⟩
    have hback : ∀ w ∈ s.workflow, ∃ w' ∈ s.workflow.map fun w => { w with closed := true },
        w'.requestHash = w.requestHash := by
      intro w hw
      exact ⟨{ w with closed := true }, by simp [Option.mem_def.mp hw], rfl⟩
    refine ⟨?_, ?_, ?_⟩
    · intro r hr
      obtain ⟨w, hw, hhash⟩ := hI.made r hr
      obtain ⟨w', hw', hhash'⟩ := hback w hw
      exact ⟨w', hw', hhash.trans (congrArg some hhash'.symm)⟩
    · intro w hw hp
      obtain ⟨q, hq, -, hplaced⟩ := hwork w hw
      exact hI.placed q hq (hplaced ▸ hp)
    · intro c hc
      refine (hI.promised c hc).mono (fun r hr => ⟨r, hr, rfl⟩) hback ?_
      intro hown _ w hw
      obtain ⟨q, hq, hhash, -⟩ := hwork w hw
      exact hhash.trans (hown q hq)

/-- A promise about the workflow is one about the row that it makes. -/
theorem PlacementInv.answeredForOwn {s : Placement} (hI : PlacementInv s) :
    ∀ c ∈ s.calls, AnsweredForOwn s c := by
  intro c hc
  have h := hI.promised c hc
  unfold AnsweredForOwn
  unfold Promised at h
  split
  · next hpc => simpa only [hpc] using h
  · next hpc => simpa only [hpc] using h
  · next hpc =>
    simp only [hpc] at h
    intro r hr
    obtain ⟨w, hw, hhash⟩ := hI.made r hr
    rw [hhash, h w hw]
  · trivial

/-- An answer that does not name the order. -/
def PlaceOutcome.isRefusal : PlaceOutcome → Bool
  | .hashMismatch | .refused | .unavailable => true
  | _ => false

/-- **Placement answers only for its own cart.**  In every run in which no call comes to
Temporal where an order of another body stands: a call answered Placed, Replayed or
PlacementPending is answered for an order of its own body, and a call whose body is
not the order's is refused. -/
theorem placement_answers_own_cart {is : List PlacementEvent} {s : Placement}
    (h : Run placementStep OwnCart .empty is s) :
    (∀ c ∈ s.calls, AnsweredForOwn s c) ∧
    ∀ c ∈ s.calls, ∀ o, c.pc = .answered o → ∀ r ∈ s.row, r.requestHash ≠ some c.requestHash →
      o.isRefusal = true := by
  have hI : PlacementInv s := by
    refine h.invariant ⟨?_, ?_, ?_⟩ fun _ _ _ hI hok hstep => hI.step hok hstep
    · simp [Placement.empty]
    · simp [Placement.empty]
    · simp [Placement.empty]
  refine ⟨hI.answeredForOwn, ?_⟩
  intro c hc o ho r hr hne
  have hown := hI.answeredForOwn c hc
  unfold AnsweredForOwn at hown
  rw [ho] at hown
  cases o with
  | placed status =>
    obtain ⟨r', hr', hhash⟩ := hown
    cases hr.symm.trans hr'
    exact absurd hhash hne
  | replayed status =>
    obtain ⟨r', hr', hhash⟩ := hown
    cases hr.symm.trans hr'
    exact absurd hhash hne
  | pending => exact absurd (hown r hr) hne
  | hashMismatch => rfl
  | refused => rfl
  | unavailable => rfl

/-- A cart is placed, and a different cart comes with the same key. -/
def placedThenMismatch : List PlacementEvent :=
  [.place "A", .call 0 .priced .done, .call 0 .priced .done, .call 0 .priced .done,
   .createOrder true, .call 0 .priced .done, .place "B", .call 1 .priced .done]

theorem placement_answers_own_cart_mismatch :
    ∃ s, Run placementStep OwnCart .empty placedThenMismatch s ∧
      s.calls = [⟨"A", .answered (.placed .placed)⟩, ⟨"B", .answered .hashMismatch⟩] ∧
      ∀ c ∈ s.calls, AnsweredForOwn s c := by
  obtain ⟨s, hs, hp⟩ : ∃ s, Run placementStep OwnCart .empty placedThenMismatch s ∧
      decide (s.calls = [⟨"A", .answered (.placed .placed)⟩, ⟨"B", .answered .hashMismatch⟩]) =
        true := exists_run_of_execOk (by decide)
  exact ⟨s, hs, of_decide_eq_true hp, (placement_answers_own_cart hs).1⟩

/-- Two calls with different carts read no row; the first one's order answers both. -/
def twoCarts : List PlacementEvent :=
  [.place "A", .place "B", .call 0 .priced .done, .call 1 .priced .done,
   .call 0 .priced .done, .call 0 .priced .done, .call 1 .priced .done, .call 1 .priced .done,
   .createOrder true, .call 1 .priced .done]

theorem placed_for_another_cart :
    ¬ ∀ (is : List PlacementEvent) (s : Placement), Run placementStep Always .empty is s →
      ∀ c ∈ s.calls, AnsweredForOwn s c := by
  intro h
  obtain ⟨s, hs, hp⟩ : ∃ s, Run placementStep Always .empty twoCarts s ∧
      decide (⟨"B", .answered (.placed .placed)⟩ ∈ s.calls ∧
        s.row.map (·.requestHash) = some (some "A")) = true :=
    exists_run_of_execOk (by decide)
  obtain ⟨hmem, hrow⟩ := of_decide_eq_true hp
  obtain ⟨r, hr, hhash⟩ := h _ s hs _ hmem
  rw [Option.mem_def.mp hr, Option.map_some, hhash] at hrow
  exact absurd hrow (by decide)

end Order
