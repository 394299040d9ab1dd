/-
Which row the events of an order leave, in whatever order and however often they arrive.

* `projected` — the events of an order that have columns of their own;
* `row_of_batches` — the row is what their patches leave, one after the other;
* `columns_agree`, `columns_last` — what all events say alike, and what is the last one's;
* `converges_iff` — the row is the one that the events leave in the order of their emission
  exactly if the event that was emitted last is also the last to arrive.
-/
import SmartFoodOps.Analytics.Batching

open Keyed Machine
open Order.Emission (Journal Change Coherent About Payload)
open Dispatch (OrderId)

namespace Analytics

/-! ### The row of an order -/

/-- The events of an order that have a column. -/
def projected (orderId : OrderId) (events : List Event) : List Order.Emission.Event :=
  events.filterMap fun
    | .order e =>
      if e.payload.orderId = orderId ∧ (eventColumn e.type).isSome then some e else none
    | _ => none

/-- What an event writes. -/
def patchOf (e : Order.Emission.Event) : FactPatch := eventPatch e.type e.payload

theorem mem_projected {orderId : OrderId} {events : List Event} {e : Order.Emission.Event} :
    e ∈ projected orderId events ↔
      .order e ∈ events ∧ e.payload.orderId = orderId ∧ (eventColumn e.type).isSome := by
  unfold projected
  rw [List.mem_filterMap]
  constructor
  · rintro ⟨e', he', h⟩
    split at h
    · split at h
      · next hcond =>
        cases h
        exact ⟨he', hcond⟩
      · cases h
    · cases h
  · rintro ⟨he, hcond⟩
    exact ⟨.order e, he, if_pos hcond⟩

theorem patchesOf_factRows (orderId : OrderId) (events : List Event) :
    patchesOf orderId (events.flatMap fun e => (factRow e).toList) =
      (projected orderId events).map patchOf := by
  induction events with
  | nil => rfl
  | cons e es ih =>
    rw [List.flatMap_cons, patchesOf_append, ih]
    unfold projected
    rw [List.filterMap_cons]
    cases e with
    | order e =>
      simp only [factRow, eventValues]
      cases hcolumn : eventColumn e.type with
      | none =>
        simp [patchesOf]
      | some c =>
        by_cases hid : e.payload.orderId = orderId
        · simp [patchesOf, hid, patchOf]
        · simp [patchesOf, hid]
    | _ => rfl

/-- **The row** that batches leave. -/
theorem row_of_batches (orderId : OrderId) (batches : List (List Event)) :
    (batches.foldl FactsProjector.handleBatch .empty).find orderId =
      if projected orderId batches.flatten = [] then none else
        some ⟨orderId, ((projected orderId batches.flatten).map patchOf).foldl
          (fun r p => p.onto r) blank⟩ := by
  rw [Table.same_iff_find.mp (same_facts .empty batches), find_foldl_upsertFact,
    patchesOf_factRows]
  simp only [List.map_eq_nil_iff]
  rfl

/-! ### Columns -/

section

variable {orderId : OrderId} {es : List Order.Emission.Event} {e e' : Order.Emission.Event}

/-- An event of the order is told by its status. -/
theorem eq_of_status (h : Coherent orderId es) (he : e ∈ es) (he' : e' ∈ es)
    (hstatus : e.payload.status = e'.payload.status) : e = e' := by
  obtain ⟨p, hp⟩ := h.about
  have htype : some e.type = some e'.type := by
    rw [← (hp e he).status, ← (hp e' he').status, hstatus]
  exact List.inj_on_of_nodup_map h.types he he' (Option.some.inj htype)

theorem eq_of_type (h : Coherent orderId es) (he : e ∈ es) (he' : e' ∈ es)
    (htype : e.type = e'.type) : e = e' := List.inj_on_of_nodup_map h.types he he' htype

/-- The columns that the last event decides. -/
def Latest : Column → Prop
  | .status | .updatedAt | .riderId => True
  | _ => False

theorem known_eq {v : Option String} {w : Option String} (h : known v = some w) :
    w = v ∧ v ≠ none := by
  unfold known at h
  obtain ⟨x, hx, rfl⟩ := Option.map_eq_some_iff.mp h
  have hv := (Option.filter_eq_some_iff.mp hx).1
  exact ⟨hv.symm, fun hnone => by rw [hnone] at hv; cases hv⟩

theorem milestone_eq {type : Order.EventType} {c : Column} {at_ : ℕ} {v : Option ℕ}
    (h : milestone type c at_ = some v) : eventColumn type = some c ∧ v = some at_ := by
  unfold milestone at h
  split at h
  · next hc =>
    cases h
    exact ⟨hc, rfl⟩
  · cases h

theorem eventColumn_inj {type type' : Order.EventType} {c : Column}
    (h : eventColumn type = some c) (h' : eventColumn type' = some c) : type = type' := by
  cases type <;> cases h <;> cases type' <;> first | rfl | cases h'

/-- A milestone column is written by one event. -/
theorem milestone_agree (h : Coherent orderId es) (he : e ∈ es) (he' : e' ∈ es) {c : Column}
    {v w : Option ℕ} (hv : milestone e.type c (occurred e.payload) = some v)
    (hw : milestone e'.type c (occurred e'.payload) = some w) : v = w := by
  obtain ⟨hc, rfl⟩ := milestone_eq hv
  obtain ⟨hc', rfl⟩ := milestone_eq hw
  rw [eq_of_type h he he' (eventColumn_inj hc hc')]

/-- **What all events of an order say alike.** -/
theorem columns_agree (h : Coherent orderId es) {c : Column} (hc : ¬ Latest c) :
    Patch.Agree (es.map patchOf) c := by
  obtain ⟨p, hp⟩ := h.about
  intro q hq q' hq' v w hv hw
  obtain ⟨e, he, rfl⟩ := List.mem_map.mp hq
  obtain ⟨e', he', rfl⟩ := List.mem_map.mp hq'
  have hpe := hp e he
  have hpe' := hp e' he'
  cases c with
  | status | updatedAt | riderId => exact absurd trivial hc
  | placedAt | confirmedAt | deliveredAt | cancelledAt | settledAt =>
    exact milestone_agree h he he' hv hw
  | restaurantId =>
    refine Option.some.inj (hv.symm.trans (Eq.trans ?_ hw))
    show some _ = some _
    rw [hpe.restaurantId, hpe'.restaurantId]
  | userId =>
    refine Option.some.inj (hv.symm.trans (Eq.trans ?_ hw))
    show some (Option.getD _ _) = some (Option.getD _ _)
    rw [hpe.userId, hpe'.userId]
  | totalCents =>
    refine Option.some.inj (hv.symm.trans (Eq.trans ?_ hw))
    show some (totalCents _) = some (totalCents _)
    rw [hpe.totals, hpe'.totals]
  | brandId =>
    obtain ⟨rfl, hne⟩ := known_eq hv
    obtain ⟨rfl, hne'⟩ := known_eq hw
    obtain ⟨b, hb⟩ := Option.ne_none_iff_exists'.mp hne
    obtain ⟨b', hb'⟩ := Option.ne_none_iff_exists'.mp hne'
    rw [hb, hb', ← hpe.brandId b hb, ← hpe'.brandId b' hb']
  | cancelReason =>
    have hcancelled : ∀ (e : Order.Emission.Event) v, patchOf e .cancelReason = some v →
        e.type = .orderCancelled ∧ v = e.payload.cancelReason := by
      intro e v hv
      change (if e.type = .orderCancelled then some e.payload.cancelReason else none) = some v at hv
      split at hv
      · next ht => exact ⟨ht, (Option.some.inj hv).symm⟩
      · cases hv
    obtain ⟨ht, rfl⟩ := hcancelled e v hv
    obtain ⟨ht', rfl⟩ := hcancelled e' w hw
    rw [eq_of_type h he he' (ht.trans ht'.symm)]

/-- **What the last event decides**: it has the column, or no event has it. -/
theorem columns_last (h : Coherent orderId es) (hlast : es.getLast? = some e) {c : Column}
    (hc : Latest c) (hnone : patchOf e c = none) : ∀ e' ∈ es, patchOf e' c = none := by
  cases c with
  | status | updatedAt => cases hnone
  | riderId =>
    intro e' he'
    obtain ⟨init, rfl⟩ := List.getLast?_eq_some_iff.mp hlast
    have hunknown : e.payload.riderId = none := by
      have hnamed := h.named e (by simp)
      change known e.payload.riderId = none at hnone
      cases hr : e.payload.riderId with
      | none => rfl
      | some rider =>
        rw [hr] at hnone hnamed
        have hne : rider ≠ "" := fun he => hnamed (congrArg some he)
        simp [known, hne] at hnone
    rcases List.mem_append.mp he' with he' | he'
    · have hriding := (List.pairwise_append.mp h.riders).2.2 e' he' e (List.mem_singleton_self _)
      have hunknown' : e'.payload.riderId = none := by
        rw [← Option.not_isSome_iff_eq_none]
        intro hsome
        have habsurd := hriding hsome
        rw [hunknown] at habsurd
        cases habsurd
      show known e'.payload.riderId = none
      rw [hunknown']
      rfl
    · rw [List.mem_singleton.mp he']
      exact hnone
  | _ => exact hc.elim

end

/-! ### Convergence -/

section

variable {orderId : OrderId} {emitted : List Order.Emission.Event} {batches : List (List Event)}

theorem projected_map (h : ∀ e ∈ emitted, e.payload.orderId = orderId) :
    projected orderId (emitted.map .order) =
      emitted.filter fun e => (eventColumn e.type).isSome := by
  induction emitted with
  | nil => rfl
  | cons e es ih =>
    have hid := h e List.mem_cons_self
    unfold projected at ih ⊢
    rw [List.map_cons, List.filterMap_cons, List.filter_cons,
      ih fun e he => h e (List.mem_cons_of_mem _ he)]
    by_cases hcolumn : (eventColumn e.type).isSome = true
    · simp [hid, hcolumn]
    · simp [hid, hcolumn]

/-- Every event of the order arrives, and no other one with its identifier. -/
def Arrives (orderId : OrderId) (emitted : List Order.Emission.Event) (events : List Event) : Prop :=
  ∀ e : Order.Emission.Event, e.payload.orderId = orderId → (.order e ∈ events ↔ e ∈ emitted)

/-- The row of the events in the order of their emission, each handled once. -/
def emittedRow (orderId : OrderId) (emitted : List Order.Emission.Event) : Option OrderFact :=
  ((emitted.map .order).foldl FactsProjector.handle (.empty : OrderFacts)).find orderId

theorem emittedRow_eq (h : ∀ e ∈ emitted, e.payload.orderId = orderId) :
    emittedRow orderId emitted =
      if (emitted.filter fun e => (eventColumn e.type).isSome) = [] then none else
        some ⟨orderId, ((emitted.filter fun e => (eventColumn e.type).isSome).map patchOf).foldl
          (fun r p => p.onto r) blank⟩ := by
  have hsingle : emittedRow orderId emitted = (((emitted.map Event.order).map fun e => [e]).foldl
      FactsProjector.handleBatch (.empty : OrderFacts)).find orderId := by
    rw [← foldl_handle]
    rfl
  rw [hsingle, row_of_batches, flatten_singletons, projected_map h]

theorem mem_of_arrives (harrive : Arrives orderId emitted batches.flatten)
    (hid : ∀ e ∈ emitted, e.payload.orderId = orderId) (e : Order.Emission.Event) :
    e ∈ projected orderId batches.flatten ↔
      e ∈ emitted.filter fun e => (eventColumn e.type).isSome := by
  rw [mem_projected, List.mem_filter]
  constructor
  · rintro ⟨he, horder, hcolumn⟩
    exact ⟨(harrive e horder).mp he, hcolumn⟩
  · rintro ⟨he, hcolumn⟩
    exact ⟨(harrive e (hid e he)).mpr he, hid e he, hcolumn⟩

theorem mem_patches {es es' : List Order.Emission.Event} (h : ∀ e, e ∈ es ↔ e ∈ es') (p : FactPatch) :
    p ∈ es.map patchOf ↔ p ∈ es'.map patchOf := by
  simp only [List.mem_map, h]

/-- The same last event leaves the same row. -/
theorem row_of_last {es es' : List Order.Emission.Event} (hcoherent : Coherent orderId es)
    (h : ∀ e, e ∈ es ↔ e ∈ es') (hlast : es.getLast? = es'.getLast?) (r : Cells) :
    (es.map patchOf).foldl (fun r p => p.onto r) r =
      (es'.map patchOf).foldl (fun r p => p.onto r) r := by
  funext c
  rw [Patch.foldl_onto, Patch.foldl_onto]
  refine congrArg (fun v => Option.getD v (r c)) ?_
  by_cases hc : Latest c
  · refine Patch.lastOf_eq_of_getLast (mem_patches h) ?_ fun p hp hnone q hq => ?_
    · rw [List.getLast?_map, List.getLast?_map, hlast]
    · rw [List.getLast?_map] at hp
      obtain ⟨e, he, rfl⟩ := Option.map_eq_some_iff.mp hp
      obtain ⟨e', he', rfl⟩ := List.mem_map.mp hq
      exact columns_last hcoherent he hc hnone e' he'
  · exact Patch.lastOf_eq_of_agree (mem_patches h) (columns_agree hcoherent hc)

/-- The status in the row is that of the last event. -/
theorem status_of_row {es : List Order.Emission.Event} {e : Order.Emission.Event}
    (h : es.getLast? = some e) (r : Cells) :
    (es.map patchOf).foldl (fun r p => p.onto r) r .status = e.payload.status := by
  have hlast : (es.map patchOf).getLast? = some (patchOf e) := by
    rw [List.getLast?_map, h]
    rfl
  rw [Patch.foldl_onto, Patch.lastOf_of_getLast hlast (show patchOf e .status = some _ from rfl)]
  rfl

/-- **Order facts converge exactly if the event that was emitted last arrives last.** -/
theorem converges_iff {cs : List Change} {j : Journal}
    (hrun : Run Order.Emission.step Order.Emission.Named (.start orderId) cs j)
    (hsub : emitted.Sublist j.events) (harrive : Arrives orderId emitted batches.flatten) :
    (batches.foldl FactsProjector.handleBatch .empty).find orderId = emittedRow orderId emitted ↔
      (projected orderId batches.flatten).getLast? =
        (emitted.filter fun e => (eventColumn e.type).isSome).getLast? := by
  have hemitted : Coherent orderId emitted := (Order.Emission.coherent_of_run hrun).sublist hsub
  have hid : ∀ e ∈ emitted, e.payload.orderId = orderId := by
    obtain ⟨p, hp⟩ := hemitted.about
    exact fun e he => (hp e he).orderId
  have hmem := mem_of_arrives harrive hid
  rw [row_of_batches, emittedRow_eq hid]
  generalize projected orderId batches.flatten = arrived at hmem ⊢
  have hcoherent : Coherent orderId (emitted.filter fun e => (eventColumn e.type).isSome) :=
    hemitted.sublist List.filter_sublist
  generalize (emitted.filter fun e => (eventColumn e.type).isSome) = es at hmem hcoherent ⊢
  rcases hes : es.getLast? with _ | e
  · obtain rfl := List.getLast?_eq_none_iff.mp hes
    obtain rfl : arrived = [] := List.eq_nil_iff_forall_not_mem.mpr fun e he =>
      List.not_mem_nil ((hmem e).mp he)
    exact ⟨fun _ => rfl, fun _ => rfl⟩
  · have he : e ∈ es := List.mem_of_getLast? hes
    have hne : es ≠ [] := List.ne_nil_of_mem he
    have hne' : arrived ≠ [] := List.ne_nil_of_mem ((hmem e).mpr he)
    rw [if_neg hne, if_neg hne', Option.some.injEq, OrderFact.mk.injEq]
    obtain ⟨a, ha⟩ := Option.ne_none_iff_exists'.mp (mt List.getLast?_eq_none_iff.mp hne')
    constructor
    · rintro ⟨-, hrow⟩
      have hstatus := congrFun hrow .status
      rw [status_of_row ha, status_of_row hes] at hstatus
      have hmem' : a ∈ es := (hmem a).mp (List.mem_of_getLast? ha)
      rw [ha, eq_of_status hcoherent hmem' he hstatus]
    · intro hlast
      refine ⟨rfl, (row_of_last hcoherent (fun e => (hmem e).symm) ?_ blank).symm⟩
      rw [hes, hlast]

theorem arrives_iff {events : List Event} (hid : ∀ e ∈ emitted, e.payload.orderId = orderId) :
    Arrives orderId emitted events ↔
      (∀ e ∈ events.filterMap (fun | .order e => some e | _ => none),
        e.payload.orderId = orderId → e ∈ emitted) ∧ ∀ e ∈ emitted, .order e ∈ events := by
  have hmem : ∀ e : Order.Emission.Event,
      e ∈ events.filterMap (fun | .order e => some e | _ => none) ↔ .order e ∈ events := by
    intro e
    rw [List.mem_filterMap]
    constructor
    · rintro ⟨e', he', h⟩
      split at h
      · cases h
        exact he'
      · cases h
    · exact fun he => ⟨.order e, he, rfl⟩
  constructor
  · intro h
    exact ⟨fun e he horder => (h e horder).mp ((hmem e).mp he), fun e he => (h e (hid e he)).mpr he⟩
  · rintro ⟨hin, hall⟩ e horder
    exact ⟨fun he => hin e ((hmem e).mpr he) horder, hall e⟩

end

/-! ### An order -/

/-- An order that is settled. -/
def settled : List Change :=
  [.create "h" ⟨"usr_1", "rst_1", none, [], ⟨some 2500, none⟩, 1⟩, .write .validateAndReserve 2,
    .write .authorizePayment 3, .repointBrand "rst_1" "brd_1", .write .confirmOrder 4,
    .write .markAccepted 5, .write .setPreparing 6, .write .setReady 7,
    .write (.recordRider "rdr_1") 8, .write .markPickedUp 9, .write .markDelivered 10,
    .write .settleOrder 11]

def settledEvents : List Order.Emission.Event :=
  (exec Order.Emission.step (.start "ord_1") settled).elim [] Journal.events

/-- Its events, of which the first one is replayed in a batch of its own, and the last two are
delivered again after that. -/
def redelivered : List (List Event) :=
  [settledEvents.map .order, (settledEvents.take 1).map .order, (settledEvents.drop 6).map .order]

/-- Its events, of which the confirmation is replayed at the end. -/
def replayedLate : List (List Event) :=
  [settledEvents.map .order, ((settledEvents.drop 1).take 1).map .order]

theorem arrives_settled : Arrives "ord_1" settledEvents redelivered.flatten ∧
    Arrives "ord_1" settledEvents replayedLate.flatten := by
  have hid : ∀ e ∈ settledEvents, e.payload.orderId = "ord_1" := by decide +kernel
  rw [arrives_iff hid, arrives_iff hid]
  decide +kernel

theorem run_settled : ∃ j, Run Order.Emission.step Order.Emission.Named (.start "ord_1") settled j ∧
    j.events = settledEvents := by
  obtain ⟨j, hrun, hp⟩ : ∃ j, Run Order.Emission.step Order.Emission.Named (.start "ord_1")
      settled j ∧ decide (j.events = settledEvents) = true :=
    exists_run_of_execOk (by decide +kernel)
  exact ⟨j, hrun, of_decide_eq_true hp⟩

theorem rows_settled :
    (projected "ord_1" redelivered.flatten).getLast? =
        (settledEvents.filter fun e => (eventColumn e.type).isSome).getLast? ∧
      ((replayedLate.foldl FactsProjector.handleBatch (.empty : OrderFacts)).find "ord_1").map
          OrderFact.status = some .confirmed ∧
      (emittedRow "ord_1" settledEvents).map OrderFact.status = some .settled := by
  decide +kernel

theorem converges_redelivered : ∃ j : Journal, j.events = settledEvents ∧
    (redelivered.foldl FactsProjector.handleBatch .empty).find "ord_1" =
      emittedRow "ord_1" j.events := by
  obtain ⟨j, hrun, hevents⟩ := run_settled
  refine ⟨j, hevents, (converges_iff hrun (List.Sublist.refl _) ?_).mpr ?_⟩
  · rw [hevents]
    exact arrives_settled.1
  · rw [hevents]
    exact rows_settled.1

/-- **An older event that arrives late moves the row back.** -/
theorem moved_back : ¬ ∀ (orderId : OrderId) (cs : List Change) (j : Journal)
    (batches : List (List Event)),
    Run Order.Emission.step Order.Emission.Named (.start orderId) cs j →
      Arrives orderId j.events batches.flatten →
        (batches.foldl FactsProjector.handleBatch .empty).find orderId =
          emittedRow orderId j.events := by
  intro h
  obtain ⟨j, hrun, hevents⟩ := run_settled
  have hrow := h "ord_1" settled j replayedLate hrun (by rw [hevents]; exact arrives_settled.2)
  rw [hevents] at hrow
  have hstatus := congrArg (Option.map OrderFact.status) hrow
  obtain ⟨-, hback, hforth⟩ := rows_settled
  rw [hback, hforth] at hstatus
  exact absurd (Option.some.inj hstatus) nofun

end Analytics
