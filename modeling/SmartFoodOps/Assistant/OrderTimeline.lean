/-
What a customer is told about an order.

The order service answers with the order's timeline; the assistant reads the answer, and explains
the order from it.  The answer says when the payment cleared, and the client does not read it.

* `orderTimeline`, `timeline` — the answer, and what is read of it;
* `explained` — what the customer is told about a row;
* `render_resolve` — every verdict of `resolve` renders, with the money sentence of its timeline;
* `Truthful` — the explanation tells the truth about the money;
* `paymentHeld_iff` — what the client can still know of the hold;
* `truthful_iff_holdKnown` — hence when explanations are truthful.
-/
import SmartFoodOps.Assistant.Render
import SmartFoodOps.Order.Evidence

open Machine Durable
open Dispatch (OrderId)
open Order (OrderRow OrderStatus CancelReason)
open Order.Evidence (beforeMoney behindConfirmed)
open Order.Lifecycle (Follows)
open Payment (Gateway)

namespace Assistant.Explain

/-! ### The answer of the order service -/

def statusText : OrderStatus → String
  | .placed => "PLACED"
  | .validated => "VALIDATED"
  | .paymentCleared => "PAYMENT_CLEARED"
  | .confirmed => "CONFIRMED"
  | .accepted => "ACCEPTED"
  | .preparing => "PREPARING"
  | .ready => "READY"
  | .pickedUp => "PICKED_UP"
  | .delivered => "DELIVERED"
  | .settled => "SETTLED"
  | .cancelling => "CANCELLING"
  | .cancelled => "CANCELLED"
  | .refunded => "REFUNDED"

def reasonText : CancelReason → String
  | .itemUnavailable => "item_unavailable"
  | .atCapacity => "at_capacity"
  | .paymentDeclined => "payment_declined"
  | .restaurantRejected => "restaurant_rejected"
  | .restaurantTimeout => "restaurant_timeout"
  | .customerCancelled => "customer_cancelled"
  | .systemTimeout => "system_timeout"
  | .noRiderAvailable => "no_rider_available"

/-- The body of the answer. -/
structure TimelineBody where
  status : String
  cancelReason : Option String
  placedAt : ℕ
  paymentClearedAt : Option ℕ
  confirmedAt : Option ℕ
  acceptedAt : Option ℕ
  preparingAt : Option ℕ
  readyAt : Option ℕ
  pickedUpAt : Option ℕ
  deriving DecidableEq

/-- `order_timeline`. -/
def orderTimeline (placedAt : ℕ) (row : OrderRow) : TimelineBody where
  status := statusText row.status
  cancelReason := row.cancellation.map fun c => reasonText c.1
  placedAt := placedAt
  paymentClearedAt := row.milestones .paymentCleared
  confirmedAt := row.milestones .confirmed
  acceptedAt := row.milestones .accepted
  preparingAt := row.milestones .preparing
  readyAt := row.milestones .ready
  pickedUpAt := row.milestones .pickedUp

/-- `OrderTimelineClient.timeline`, which takes over all the stamps but one. -/
def timeline (body : TimelineBody) : Timeline where
  status := body.status
  placedAt := body.placedAt
  confirmedAt := body.confirmedAt
  acceptedAt := body.acceptedAt
  preparingAt := body.preparingAt
  readyAt := body.readyAt
  pickedUpAt := body.pickedUpAt
  cancelReason := body.cancelReason

/-- What the customer is told. -/
def explained (placedAt : ℕ) (row : OrderRow) (now : ℕ) (delivery : Option Delivery)
    (load : Option KitchenLoad) (budget : Budget) (locale : String) : Explanation :=
  render (resolve (timeline (orderTimeline placedAt row)) now delivery load budget) locale

/-! ### Verdicts -/

section

variable (t : Timeline) (now : ℕ) (delivery : Option Delivery) (load : Option KitchenLoad)
  (budget : Budget) (locale : String)

/-- A verdict carries the facts that its copy names. -/
structure Carries (t : Timeline) (v : Verdict) : Prop where
  active : v.reason = .kitchenBusy → v.facts.active.isSome = true
  money : speaks v.reason (some (bucketFor v)) = true →
    v.facts.paymentHeld = some (paymentHeld t) ∧
      v.facts.unwindDone.getD true = decide (t.status = "CANCELLED")

theorem carries_of_silent {v : Verdict} (hactive : v.reason = .kitchenBusy → v.facts.active.isSome)
    (h : speaks v.reason (some (bucketFor v)) = false) : Carries t v :=
  ⟨hactive, fun hs => by rw [h] at hs; cases hs⟩

theorem carries_ready (hready : t.status = "READY") : Carries t (ready t now delivery budget) := by
  have hdone : decide (t.status = "CANCELLED") = false := by rw [hready]; decide
  unfold ready
  dsimp only
  split
  · exact ⟨by rintro ⟨⟩, fun _ => ⟨rfl, hdone.symm⟩⟩
  · split
    · exact carries_of_silent t (by rintro ⟨⟩) rfl
    · split
      · exact carries_of_silent t (by rintro ⟨⟩) rfl
      · exact ⟨by rintro ⟨⟩, fun _ => ⟨rfl, hdone.symm⟩⟩

theorem carries_kitchen : Carries t (kitchen t now load) := by
  unfold kitchen
  dsimp only
  by_cases hcooking : t.status = "PREPARING"
  · simp only [hcooking, decide_true, if_true]
    split
    · exact carries_of_silent t (by rintro ⟨⟩) rfl
    · split
      · exact carries_of_silent t (fun _ => rfl) rfl
      · exact carries_of_silent t (by rintro ⟨⟩) rfl
  · simp only [hcooking, decide_false, Bool.false_eq_true, if_false]
    split
    · exact carries_of_silent t (by rintro ⟨⟩) rfl
    · split
      · exact carries_of_silent t (fun _ => rfl) rfl
      · exact carries_of_silent t (by rintro ⟨⟩) rfl

theorem carries_unwound : Carries t (unwound t) := by
  refine ⟨?_, fun _ => ⟨rfl, rfl⟩⟩
  intro hbusy
  unfold unwound byCancelReason at hbusy
  dsimp only at hbusy
  split_ifs at hbusy

theorem carries_resolve : Carries t (resolve t now delivery load budget) := by
  unfold resolve
  dsimp only
  split
  · exact carries_of_silent t (by rintro ⟨⟩) rfl
  · split
    · exact carries_of_silent t (by rintro ⟨⟩) rfl
    · split
      · exact carries_unwound t
      · split
        · exact carries_of_silent t (by rintro ⟨⟩) rfl
        · split
          · next hready => exact carries_ready t now delivery budget hready
          · split
            · exact carries_kitchen t now load
            · next hcancelled _ _ _ =>
              have hdone : decide (t.status = "CANCELLED") = false :=
                decide_eq_false fun h => hcancelled (.inr h)
              split
              · exact ⟨by rintro ⟨⟩, fun _ => ⟨rfl, hdone.symm⟩⟩
              · split
                · exact ⟨by rintro ⟨⟩, fun _ => ⟨rfl, hdone.symm⟩⟩
                · exact carries_of_silent t (by rintro ⟨⟩) rfl

/-- The verdict speaks of a cancellation. -/
def speaksOf (v : Verdict) : Bool := speaks v.reason (some (bucketFor v))

/-- **Every verdict of `resolve` renders**; it is silent, or says the money sentence of its
timeline. -/
theorem render_resolve :
    let v := resolve t now delivery load budget
    (render v locale).source = .template ∧
      (speaksOf v = false ∧ Silent (render v locale).text ∨
        speaksOf v = true ∧ Candid (render v locale).text
          (moneySentence (paymentHeld t) (decide (t.status = "CANCELLED")))) :=
  have h := carries_resolve t now delivery load budget
  render_en h.active h.money

end

/-! ### What the client can know -/

theorem statusText_eq_cancelled {st : OrderStatus} :
    decide (statusText st = "CANCELLED") = decide (st = .cancelled) := by
  cases st <;> decide

section

variable {held : Option Bool} {unwindDone : Bool}

/-- No two of the sentences are alike. -/
theorem sentences_ne : "" ≠ neverCharged ∧ "" ≠ holdReleased ∧ "" ≠ holdReleasing ∧
    neverCharged ≠ holdReleased ∧ neverCharged ≠ holdReleasing ∧ holdReleased ≠ holdReleasing := by
  decide +kernel

theorem moneySentence_charged : moneySentence held unwindDone = neverCharged ↔ held = some false := by
  obtain ⟨hunknown, -, -, hreleased, hreleasing, -⟩ := sentences_ne
  rcases held with _ | _ | _
  · exact iff_of_false hunknown (by rintro ⟨⟩)
  · exact iff_of_true rfl rfl
  · refine iff_of_false ?_ (by rintro ⟨⟩)
    rcases unwindDone with _ | _
    · exact hreleasing.symm
    · exact hreleased.symm

theorem moneySentence_released :
    moneySentence held unwindDone = holdReleased ↔ held = some true ∧ unwindDone = true := by
  obtain ⟨-, hunknown, -, hcharged, -, hreleasing⟩ := sentences_ne
  rcases held with _ | _ | _
  · exact iff_of_false hunknown (by rintro ⟨⟨⟩, -⟩)
  · exact iff_of_false hcharged (by rintro ⟨⟨⟩, -⟩)
  · rcases unwindDone with _ | _
    · exact iff_of_false hreleasing.symm (by rintro ⟨-, ⟨⟩⟩)
    · exact iff_of_true rfl ⟨rfl, rfl⟩

theorem moneySentence_releasing :
    moneySentence held unwindDone = holdReleasing ↔ held = some true ∧ unwindDone = false := by
  obtain ⟨-, -, hunknown, -, hcharged, hreleased⟩ := sentences_ne
  rcases held with _ | _ | _
  · exact iff_of_false hunknown (by rintro ⟨⟨⟩, -⟩)
  · exact iff_of_false hcharged (by rintro ⟨⟨⟩, -⟩)
  · rcases unwindDone with _ | _
    · exact iff_of_true rfl ⟨rfl, rfl⟩
    · exact iff_of_false hreleased (by rintro ⟨-, ⟨⟩⟩)

end

section

variable {row : OrderRow} {path : List OrderStatus} {placedAt now : ℕ}
  {delivery : Option Delivery} {load : Option KitchenLoad} {budget : Budget} {locale : String}

/-- A reason before the money. -/
def isBeforeMoney (row : OrderRow) : Bool := row.cancellation.any fun c => beforeMoney c.1

theorem reasonText_mem {reason : CancelReason} :
    reasonText reason ∈ preAuthorizationReasons ↔ beforeMoney reason = true := by
  cases reason <;> decide

theorem mem_preAuthorizationReasons :
    (timeline (orderTimeline placedAt row)).cancelReason.getD "" ∈ preAuthorizationReasons ↔
      isBeforeMoney row = true := by
  show (row.cancellation.map fun c => reasonText c.1).getD "" ∈ _ ↔ row.cancellation.any _ = true
  rcases row.cancellation with _ | ⟨reason, at_⟩
  · exact iff_of_false (by decide) (by rintro ⟨⟩)
  · exact reasonText_mem

/-- **What the client can know of the hold**: of a row that was never confirmed, nothing but that
there was none. -/
theorem paymentHeld_timeline (hf : Follows row path) :
    paymentHeld (timeline (orderTimeline placedAt row)) =
      if isBeforeMoney row then some false
      else if (row.milestones .confirmed).isSome then some true else none := by
  have hlater : ∀ st, behindConfirmed st = true → (row.milestones st).isSome = true →
      (row.milestones .confirmed).isSome = true := by
    intro st hst hs
    exact Order.Evidence.confirmed_of_path hf ((hf.milestones st).mp hs).2 hst
  have hany : ((row.milestones .confirmed).isSome = true ∨ (row.milestones .accepted).isSome = true ∨
      (row.milestones .preparing).isSome = true ∨ (row.milestones .ready).isSome = true ∨
      (row.milestones .pickedUp).isSome = true) ↔ (row.milestones .confirmed).isSome = true := by
    refine ⟨?_, .inl⟩
    rintro (hs | hs | hs | hs | hs)
    · exact hs
    · exact hlater .accepted rfl hs
    · exact hlater .preparing rfl hs
    · exact hlater .ready rfl hs
    · exact hlater .pickedUp rfl hs
  have hunread : ¬ (timeline (orderTimeline placedAt row)).paymentClearedAt.isSome = true := by
    rintro ⟨⟩
  unfold paymentHeld
  rw [if_neg hunread]
  exact if_congr mem_preAuthorizationReasons rfl (if_congr hany rfl rfl)

/-! ### Speaking of a cancellation -/

/-- A row that is being cancelled, or was, is told so. -/
theorem speaksOf_cancelled (hf : Follows row path)
    (hst : row.status = .cancelling ∨ row.status = .cancelled) :
    speaksOf (resolve (timeline (orderTimeline placedAt row)) now delivery load budget) = true := by
  obtain ⟨⟨reason, at_⟩, hc⟩ := Option.isSome_iff_exists.mp (hf.cancellation.mpr hst)
  have hunwound : resolve (timeline (orderTimeline placedAt row)) now delivery load budget =
      unwound (timeline (orderTimeline placedAt row)) := by
    have hstatus : (timeline (orderTimeline placedAt row)).status = statusText row.status := rfl
    unfold resolve
    rw [hstatus]
    rcases hst with hst | hst <;> rw [hst] <;> rfl
  have hreason : (timeline (orderTimeline placedAt row)).cancelReason = some (reasonText reason) := by
    show row.cancellation.map _ = _
    rw [hc]
    rfl
  rw [hunwound]
  unfold speaksOf unwound
  rw [hreason]
  cases reason <;> rfl

/-- The forward deadline has not passed. -/
def inTime (placedAt now : ℕ) (budget : Budget) : Prop :=
  (((now - placedAt) / 1000000 : ℕ) : ℤ) < budget.forwardDeadlineS

instance (placedAt now : ℕ) (budget : Budget) : Decidable (inTime placedAt now budget) :=
  inferInstanceAs (Decidable (_ < _))

theorem overdue_of_bounded {elapsed : ℕ} {budgetS : ℤ} {basis covers : String} :
    (bounded (some elapsed) budgetS basis covers).1 = some (decide (¬ (elapsed : ℤ) < budgetS)) := by
  unfold bounded
  dsimp only
  by_cases hlate : budgetS - (elapsed : ℤ) ≤ 0
  · rw [if_pos hlate, decide_eq_true (by omega)]
  · rw [if_neg hlate, decide_eq_false (by omega)]

/-- A row in PAYMENT_CLEARED is told of a cancellation once the forward deadline has passed. -/
theorem speaksOf_paymentCleared (hst : row.status = .paymentCleared) :
    speaksOf (resolve (timeline (orderTimeline placedAt row)) now delivery load budget) = true ↔
      ¬ inTime placedAt now budget := by
  have hstatus : (timeline (orderTimeline placedAt row)).status = "PAYMENT_CLEARED" := by
    show statusText row.status = _
    rw [hst]
    rfl
  have hreason : (resolve (timeline (orderTimeline placedAt row)) now delivery load budget).reason =
      .paymentInProgress := by
    unfold resolve
    rw [hstatus]
    rfl
  have hoverdue : (resolve (timeline (orderTimeline placedAt row)) now delivery load
      budget).overdue = some (decide (¬ inTime placedAt now budget)) := by
    unfold resolve
    rw [hstatus]
    exact overdue_of_bounded
  unfold speaksOf bucketFor
  rw [hreason, hoverdue]
  by_cases hin : inTime placedAt now budget
  · rw [decide_eq_false (not_not.mpr hin), if_neg (by rintro ⟨⟩)]
    refine iff_of_false ?_ (not_not.mpr hin)
    split
    · rintro ⟨⟩
    · split_ifs <;> rintro ⟨⟩
  · rw [decide_eq_true hin, if_pos rfl]
    exact iff_of_true rfl hin

end

/-! ### The truth about the money -/

/-- **The explanation of a row tells the truth about its money.** -/
structure Truthful (g : Gateway) (order : OrderId) (row : OrderRow) (e : Explanation) : Prop where
  renders : e.source = .template
  /-- The customer is not charged, if it says so. -/
  charged : Says e.text neverCharged → ∀ ref, ¬ g.truth.Approved order ref
  released : Says e.text holdReleased → row.status = .cancelled
  /-- What it says of a cancellation, it says with what becomes of the hold. -/
  hold : (row.milestones .paymentCleared).isSome = true → Says e.text "cancelled" →
    Says e.text holdReleased ∨ Says e.text holdReleasing

/-- What the client can explain without the stamp that it drops: the payment has not cleared, or
the order was confirmed, or it waits for that and is in time. -/
def HoldKnown (placedAt : ℕ) (row : OrderRow) (now : ℕ) (budget : Budget) : Prop :=
  row.milestones .paymentCleared = none ∨ row.milestones .confirmed ≠ none ∨
    row.status = .paymentCleared ∧ inTime placedAt now budget

section

variable {g : Gateway} {order : OrderId} {row : OrderRow} {path : List OrderStatus}
  {placedAt now : ℕ} {delivery : Option Delivery} {load : Option KitchenLoad} {budget : Budget}
  {locale : String}

/-- An explanation that is silent is truthful. -/
theorem truthful_of_silent {e : Explanation} (hsource : e.source = .template)
    (h : Silent e.text) : Truthful g order row e :=
  ⟨hsource, fun hs => absurd hs h.charged, fun hs => absurd hs h.released,
    fun _ hs => absurd hs h.cancellation⟩

/-- One that is candid is truthful if it is where nobody was charged, and knows of a hold. -/
theorem truthful_iff_of_candid {e : Explanation} {held : Option Bool}
    (hsource : e.source = .template)
    (h : Candid e.text (moneySentence held (decide (row.status = .cancelled))))
    (hcharged : held = some false → ∀ ref, ¬ g.truth.Approved order ref) :
    Truthful g order row e ↔ ((row.milestones .paymentCleared).isSome = true → held = some true) := by
  constructor
  · intro ht hcleared
    rcases ht.hold hcleared h.cancellation with hs | hs
    · exact (moneySentence_released.mp (h.released.mp hs)).1
    · exact (moneySentence_releasing.mp (h.releasing.mp hs)).1
  · intro hheld
    refine ⟨hsource, fun hs => ?_, fun hs => ?_, fun hcleared _ => ?_⟩
    · exact hcharged (moneySentence_charged.mp (h.charged.mp hs))
    · exact of_decide_eq_true (moneySentence_released.mp (h.released.mp hs)).2
    · have htrue := hheld hcleared
      by_cases hdone : row.status = .cancelled
      · exact .inl (h.released.mpr (moneySentence_released.mpr ⟨htrue, decide_eq_true hdone⟩))
      · exact .inr (h.releasing.mpr (moneySentence_releasing.mpr ⟨htrue, decide_eq_false hdone⟩))

/-- **The explanation of a row that follows its path**, whose reason for a cancellation is true. -/
theorem truthful_of_follows (hf : Follows row path)
    (htold : isBeforeMoney row = true →
      (∀ ref, ¬ g.truth.Approved order ref) ∧ row.milestones .confirmed = none) :
    Truthful g order row (explained placedAt row now delivery load budget locale) ↔
      HoldKnown placedAt row now budget := by
  obtain ⟨hsource, htext⟩ := render_resolve (timeline (orderTimeline placedAt row)) now delivery
    load budget locale
  have hdone : decide ((timeline (orderTimeline placedAt row)).status = "CANCELLED") =
      decide (row.status = .cancelled) := statusText_eq_cancelled
  rw [hdone] at htext
  -- the hold is known exactly of the rows that were confirmed
  have hheld : paymentHeld (timeline (orderTimeline placedAt row)) = some true ↔
      row.milestones .confirmed ≠ none := by
    rw [paymentHeld_timeline hf]
    by_cases hb : isBeforeMoney row = true
    · rw [if_pos hb]
      exact iff_of_false (by rintro ⟨⟩) (not_not.mpr (htold hb).2)
    · rw [if_neg hb, ← Option.isSome_iff_ne_none]
      split
      · next hs => exact iff_of_true rfl hs
      · next hs => exact iff_of_false (by rintro ⟨⟩) hs
  have hcharged : paymentHeld (timeline (orderTimeline placedAt row)) = some false →
      ∀ ref, ¬ g.truth.Approved order ref := by
    rw [paymentHeld_timeline hf]
    intro hfalse
    by_cases hb : isBeforeMoney row = true
    · exact (htold hb).1
    · rw [if_neg hb] at hfalse
      split at hfalse <;> cases hfalse
  rcases htext with ⟨hquiet, hsilent⟩ | ⟨hspeaks, hcandid⟩
  · refine iff_of_true (truthful_of_silent hsource hsilent) ?_
    -- a silent explanation is of no row whose hold the client cannot know
    by_contra hunknown
    unfold HoldKnown at hunknown
    push Not at hunknown
    obtain ⟨hcleared, hconfirmed, hlate⟩ := hunknown
    have hspeaks : speaksOf (resolve (timeline (orderTimeline placedAt row)) now delivery load
        budget) = true := by
      rcases Order.Evidence.status_of_unconfirmed hf (Option.isSome_iff_ne_none.mpr hcleared)
        hconfirmed with hst | hst
      · exact (speaksOf_paymentCleared hst).mpr (hlate hst)
      · exact speaksOf_cancelled hf hst
    rw [hquiet] at hspeaks
    cases hspeaks
  · rw [show explained placedAt row now delivery load budget locale =
      render (resolve (timeline (orderTimeline placedAt row)) now delivery load budget) locale
      from rfl, truthful_iff_of_candid hsource hcandid hcharged, hheld]
    unfold HoldKnown
    constructor
    · intro h
      by_cases hcleared : row.milestones .paymentCleared = none
      · exact .inl hcleared
      · exact .inr (.inl (h (Option.isSome_iff_ne_none.mpr hcleared)))
    · rintro (hnone | hconfirmed | ⟨hst, hin⟩) hcleared
      · rw [hnone] at hcleared
        cases hcleared
      · exact hconfirmed
      · exact absurd hin ((speaksOf_paymentCleared hst).mp hspeaks)

end

open Order.Evidence in
/-- **Explanations tell the truth about the money** exactly where the client can know of the hold:
in every run of the sagas over the payment service, whatever the row of an order is then, and
whenever it is explained, with whatever delivery, kitchen load and budget. -/
theorem truthful_iff_holdKnown {cfg : Order.Evidence.Config} {ls : List Order.Evidence.Label}
    {s : Order.Evidence.System} {order : OrderId} {row : OrderRow}
    (h : Run (Order.Evidence.step cfg) Always .empty ls s)
    (hrow : s.saga.world.orders order = some row) (placedAt now : ℕ) (delivery : Option Delivery)
    (load : Option KitchenLoad) (budget : Budget) (locale : String) :
    Truthful s.gateway order row (explained placedAt row now delivery load budget locale) ↔
      HoldKnown placedAt row now budget := by
  obtain ⟨path, hf⟩ := exists_path_of_run h hrow
  refine truthful_of_follows hf fun hb => ?_
  obtain ⟨⟨reason, at_⟩, hc, hbefore⟩ := Option.any_eq_true _ _ |>.mp hb
  exact untaken_of_run h hrow (by rw [hc]; rfl) hbefore

/-! ### Runs -/

section

open Order.Evidence

/-- A customer cancels after the order was confirmed. -/
def cancelledAfterConfirmation : List Order.Evidence.Label :=
  upToCleared "o" ++ once "o" 4 ++
    [.saga (.flow "o" (.signal .cancelRequested)), .saga (.flow "o" (.event .wake))] ++
    unwindAll "o" 5

/-- The kitchen is never told: the deadline passes while the order is in PAYMENT_CLEARED. -/
def timedOutBeforeConfirmation : List Order.Evidence.Label :=
  upToCleared "o" ++ [.saga (.flow "o" .expire)] ++ unwindAll "o" 301

/-- The hold of a customer who cancelled is released, and that is what the customer is told. -/
theorem truthful_iff_holdKnown_confirmed : ∃ s row,
    Run (Order.Evidence.step oneOrder) Always .empty cancelledAfterConfirmation s ∧
      s.saga.world.orders "o" = some row ∧
      (explained 0 row 6000000 none none {} "en").text =
        "You cancelled this order. Your card hold has been released." ∧
      Truthful s.gateway "o" row (explained 0 row 6000000 none none {} "en") := by
  obtain ⟨s, hs, hp⟩ : ∃ s,
      Run (Order.Evidence.step oneOrder) Always .empty cancelledAfterConfirmation s ∧
      decide ((s.saga.world.orders "o").map (orderTimeline 0) =
        some ⟨"CANCELLED", some "customer_cancelled", 0, some 3, some 4, none, none, none, none⟩) =
        true := exists_run_of_execOk (by decide)
  obtain ⟨row, hrow, hbody⟩ := Option.map_eq_some_iff.mp (of_decide_eq_true hp)
  have hconfirmed : (orderTimeline 0 row).confirmedAt = some 4 := by rw [hbody]
  refine ⟨s, row, hs, hrow, ?_, ?_⟩
  · unfold explained
    rw [hbody]
    decide +kernel
  · refine (truthful_iff_holdKnown hs hrow 0 6000000 none none {} "en").mpr (.inr (.inl ?_))
    rw [show row.milestones .confirmed = some 4 from hconfirmed]
    simp

/-- **A card was held for an order that timed out before it was confirmed**, and what the customer
is told of its cancellation says nothing of the hold: the answer of the order service carries
`payment_cleared_at`, and the client does not read it. -/
theorem untold_hold : ∃ s row,
    Run (Order.Evidence.step oneOrder) Always .empty timedOutBeforeConfirmation s ∧
      s.saga.world.orders "o" = some row ∧ row.status = .cancelled ∧
      (row.milestones .paymentCleared).isSome = true ∧ s.gateway.truth.Approved "o" "ref" ∧
      (explained 0 row 302000000 none none {} "en").text =
        "We couldn't complete this order and cancelled it.  Please try again." ∧
      ¬ Truthful s.gateway "o" row (explained 0 row 302000000 none none {} "en") := by
  obtain ⟨s, hs, hp⟩ : ∃ s,
      Run (Order.Evidence.step oneOrder) Always .empty timedOutBeforeConfirmation s ∧
      decide ((s.saga.world.orders "o").map (orderTimeline 0) =
          some ⟨"CANCELLED", some "system_timeout", 0, some 3, none, none, none, none, none⟩ ∧
        (s.saga.world.orders "o").map (fun r => (r.status, isBeforeMoney r)) =
          some (.cancelled, false) ∧
        s.gateway.psp.answered (Payment.authKey "o") = some (.authorization true "ref")) = true :=
    exists_run_of_execOk (by decide)
  obtain ⟨hbody, hstatus, happ⟩ := of_decide_eq_true hp
  obtain ⟨row, hrow, hbody⟩ := Option.map_eq_some_iff.mp hbody
  rw [hrow] at hstatus
  obtain ⟨hst, hb⟩ := Prod.mk.inj (Option.some.inj hstatus)
  have hcleared : row.milestones .paymentCleared = some 3 :=
    show (orderTimeline 0 row).paymentClearedAt = _ by rw [hbody]
  have hconfirmed : row.milestones .confirmed = none :=
    show (orderTimeline 0 row).confirmedAt = _ by rw [hbody]
  refine ⟨s, row, hs, hrow, hst, by rw [hcleared]; rfl, happ, ?_, ?_⟩
  · unfold explained
    rw [hbody]
    decide +kernel
  · obtain ⟨path, hf⟩ := exists_path_of_run hs hrow
    rw [truthful_of_follows hf fun h => by rw [hb] at h; cases h]
    rintro (hnone | hsome | ⟨hpaid, -⟩)
    · rw [hcleared] at hnone
      cases hnone
    · exact hsome hconfirmed
    · rw [hst] at hpaid
      cases hpaid

end

end Assistant.Explain
