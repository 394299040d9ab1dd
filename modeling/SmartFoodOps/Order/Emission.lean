/-
The lifecycle events of an order, with what they say.

An event is staged in the transaction of the write that it announces, from the row as that
write leaves it.

* `Payload`, `Event` — what the outbox rows of an order carry;
* `Journal`, `step` — the row, the columns that no move writes, and the events staged so far;
* `Coherent` — what the events of one order have in common;
* `coherent_of_run` — the events of every order do.
-/
import SmartFoodOps.Order.Lifecycle

open Machine
open Dispatch (OrderId RiderId)

namespace Order.Emission

open Lifecycle

/-! ### Payloads -/

/-- A line of an order. -/
structure Line where
  menuItemId : Option String
  name : Option String
  qty : Option ℤ
  lineTotalCents : Option ℤ
  deriving DecidableEq

/-- The pricing snapshot; a dump of a priced order nests its own. -/
structure Totals where
  totalCents : Option ℤ
  /-- `totals`, if it is a mapping, with its `total_cents`. -/
  totals : Option (Option ℤ) := none
  deriving DecidableEq

structure Payload where
  orderId : OrderId
  userId : Option String
  restaurantId : String
  brandId : Option String
  status : OrderStatus
  items : List Line
  totals : Totals
  cancelReason : Option CancelReason := none
  riderId : Option RiderId := none
  placedAt : ℕ
  occurredAt : Option ℕ := none
  deriving DecidableEq

structure Event where
  type : EventType
  payload : Payload
  deriving DecidableEq

/-! ### Staging -/

/-- The columns of the row that no move writes, and the lines. -/
structure Placed where
  userId : String
  restaurantId : String
  brandId : Option String
  items : List Line
  totals : Totals
  placedAt : ℕ
  deriving DecidableEq

/-- The payload that `_insert_placement` stages. -/
def Placed.payload (p : Placed) (orderId : OrderId) : Payload where
  orderId := orderId
  userId := some p.userId
  restaurantId := p.restaurantId
  brandId := p.brandId
  status := .placed
  items := p.items
  totals := p.totals
  placedAt := p.placedAt

/-- `_full_state`. -/
def fullState (orderId : OrderId) (p : Placed) (r : OrderRow) (now : ℕ)
    (cancelReason : Option CancelReason) : Payload where
  orderId := orderId
  userId := some p.userId
  restaurantId := p.restaurantId
  brandId := p.brandId
  status := r.status
  items := p.items
  totals := p.totals
  cancelReason := cancelReason
  riderId := r.riderId
  placedAt := p.placedAt
  occurredAt := some now

/-- The `cancel_reason` that a writer passes on. -/
def cancelReason : Writer → Option CancelReason
  | .beginCancel _ reason | .tryBeginCancel reason | .finishCancel reason => some reason
  | _ => none

structure Journal where
  orderId : OrderId
  history : History
  placed : Option Placed
  events : List Event

def Journal.start (orderId : OrderId) : Journal := ⟨orderId, .empty, none, []⟩

inductive Change
  | create (requestHash : String) (placed : Placed)
  | write (writer : Writer) (now : ℕ)
  | repointBrand (restaurantId brandId : String)
  deriving DecidableEq

/-- The types of the events that a write stages. -/
def staged (before after : Option OrderRow) : List EventType :=
  (after.elim [] (·.events)).drop (before.elim [] (·.events)).length

/-- The events of a write, with what the row says after it. -/
def announced (j : Journal) (h : History) (now : ℕ) (reason : Option CancelReason) : List Event :=
  match j.placed, h.row with
  | some p, some r =>
    (staged j.history.row h.row).map fun type => ⟨type, fullState j.orderId p r now reason⟩
  | _, _ => []

def step (j : Journal) : Change → Option Journal
  | .create requestHash p => do
    let h ← Lifecycle.step j.history ⟨.createOrder requestHash, p.placedAt⟩
    match j.placed with
    | none => return { j with history := h, placed := some p,
                              events := j.events ++ [⟨.orderPlaced, p.payload j.orderId⟩] }
    | some _ => return { j with history := h }
  | .write (.createOrder _) _ => none
  | .write w now => do
    let h ← Lifecycle.step j.history ⟨w, now⟩
    return { j with history := h, events := j.events ++ announced j h now (cancelReason w) }
  | .repointBrand restaurantId brandId =>
    some { j with placed := j.placed.map fun p =>
      if p.restaurantId = restaurantId ∧ p.brandId = none then { p with brandId := some brandId }
      else p }

/-- Riders are users, whose identifiers are not empty. -/
def Named (_ : Journal) : Change → Prop
  | .write (.recordRider rider) _ => rider ≠ ""
  | _ => True

instance (j : Journal) (c : Change) : Decidable (Named j c) := by
  unfold Named
  split <;> infer_instance

/-! ### What the events of an order have in common -/

/-- The event is about the order as it was placed. -/
structure About (orderId : OrderId) (p : Placed) (e : Event) : Prop where
  orderId : e.payload.orderId = orderId
  userId : e.payload.userId = some p.userId
  restaurantId : e.payload.restaurantId = p.restaurantId
  brandId : ∀ b, e.payload.brandId = some b → p.brandId = some b
  totals : e.payload.totals = p.totals
  status : eventOf e.payload.status = some e.type

/-- A rider who is known stays known. -/
def Riding (e e' : Event) : Prop := e.payload.riderId.isSome → e'.payload.riderId.isSome

/-- The events of one order. -/
structure Coherent (orderId : OrderId) (es : List Event) : Prop where
  about : ∃ p, ∀ e ∈ es, About orderId p e
  types : (es.map (·.type)).Nodup
  riders : es.Pairwise Riding
  named : ∀ e ∈ es, e.payload.riderId ≠ some ""

theorem Coherent.sublist {orderId : OrderId} {es es' : List Event} (h : Coherent orderId es)
    (hsub : es'.Sublist es) : Coherent orderId es' := by
  obtain ⟨p, hp⟩ := h.about
  exact ⟨⟨p, fun e he => hp e (hsub.subset he)⟩, h.types.sublist (hsub.map _),
    h.riders.sublist hsub, fun e he => h.named e (hsub.subset he)⟩

section

variable {j u : Journal} {p : Placed} {r r' : OrderRow} {e : Event} {now : ℕ}

theorem about_payload {orderId : OrderId} : About orderId p ⟨.orderPlaced, p.payload orderId⟩ :=
  ⟨rfl, rfl, rfl, fun _ h => h, rfl, rfl⟩

theorem about_fullState {orderId : OrderId} {type : EventType} {reason : Option CancelReason}
    (h : eventOf r.status = some type) : About orderId p ⟨type, fullState orderId p r now reason⟩ :=
  ⟨rfl, rfl, rfl, fun _ h => h, rfl, h⟩

/-- The invariant of a journal. -/
structure Inv (j : Journal) : Prop where
  history : Lifecycle.Inv j.history
  placed : j.placed = none ↔ j.history.row = none
  about : ∀ e ∈ j.events, ∃ p, j.placed = some p ∧ About j.orderId p e
  types : j.events.map (·.type) = j.history.row.elim [] (·.events)
  riders : j.events.Pairwise Riding
  /-- The row knows the rider whom an event knows. -/
  rider : ∀ e ∈ j.events, e.payload.riderId.isSome → ∃ r, j.history.row = some r ∧ r.riderId.isSome
  named : ∀ e ∈ j.events, e.payload.riderId ≠ some ""
  rowNamed : ∀ r, j.history.row = some r → r.riderId ≠ some ""

theorem orderId_step {c : Change} (h : step j c = some u) : u.orderId = j.orderId := by
  cases c with
  | create requestHash p =>
    simp only [step, Option.bind_eq_bind, Option.bind_eq_some_iff] at h
    obtain ⟨h₁, -, h⟩ := h
    split at h <;> cases h <;> rfl
  | write w now =>
    cases w <;> cases h <;> rfl
  | repointBrand restaurantId brandId =>
    cases h
    rfl

theorem inv_start (orderId : OrderId) : Inv (.start orderId) :=
  ⟨inv_empty, by simp [Journal.start, History.empty], List.forall_mem_nil _, rfl, .nil,
    List.forall_mem_nil _, List.forall_mem_nil _, fun r h => by cases (h : none = some r)⟩

theorem write_none {w : Writer} (hw : ∀ requestHash, w ≠ .createOrder requestHash) :
    w.write none now = none := by
  cases w with
  | createOrder requestHash => exact absurd rfl (hw requestHash)
  | _ => rfl

theorem riderId_moved {expected target : OrderStatus} {event : Option EventType}
    {reason : Option CancelReason} (h : moved (some r) expected target event reason now = some r') :
    r'.riderId = r.riderId := by
  unfold moved transition at h
  by_cases hs : r.status = expected
  · simp only [hs, if_true] at h
    cases h
    cases reason <;> rfl
  · by_cases ht : r.status = target
    · simp only [if_neg hs, if_pos ht] at h
      cases h
      rfl
    · simp only [hs, ht, if_false] at h
      cases h
      rfl

/-- Nobody else stamps a rider. -/
theorem riderId_write {w : Writer} (h : w.write (some r) now = some r') :
    r'.riderId = r.riderId ∨ ∃ rider, w = .recordRider rider ∧ r'.riderId = some rider := by
  cases w with
  | createOrder requestHash =>
    cases h
    exact .inl rfl
  | recordRider rider =>
    cases h
    exact .inr ⟨rider, rfl, rfl⟩
  | tryBeginCancel reason =>
    have h : (beginCancelFrom (some r) cancellableKitchenStates reason now).1 = some r' := h
    unfold beginCancelFrom at h
    dsimp only at h
    split at h <;> cases h <;> exact .inl rfl
  | _ => exact .inl (riderId_moved h)

theorem staged_self {row : Option OrderRow} : staged row row = [] := List.drop_length

theorem staged_append {types : List EventType} (h : r'.events = r.events ++ types) :
    staged (some r) (some r') = types := by
  show r'.events.drop r.events.length = types
  rw [h, List.drop_left]

/-- What a write on a row that is there stages. -/
theorem staged_of_effect (h : Effect now (some r) (some r')) :
    r'.events = r.events ++ staged (some r) (some r') ∧
      (∀ type ∈ staged (some r) (some r'), eventOf r'.status = some type) ∧
      (staged (some r) (some r')).length ≤ 1 ∧ (r.riderId.isSome → r'.riderId.isSome) := by
  cases h with
  | same =>
    rw [staged_self]
    exact ⟨(List.append_nil _).symm, List.forall_mem_nil _, Nat.zero_le _, fun h => h⟩
  | @rider _ rider =>
    have hstaged : staged (some r) (some { r with riderId := some rider }) = [] :=
      staged_append (List.append_nil r.events).symm
    rw [hstaged]
    exact ⟨(List.append_nil _).symm, List.forall_mem_nil _, Nat.zero_le _, fun _ => rfl⟩
  | @applied _ _ target ha =>
    have hstatus := ha.status.1
    obtain ⟨reason, hedge, hreason⟩ := ha
    have hevents : ((r.moveTo target now).announce (eventOf target) reason now).events =
        r.events ++ (eventOf target).toList := announce_events
    rw [staged_append hevents]
    refine ⟨hevents, fun type htype => ?_, ?_, fun h => ?_⟩
    · rw [hstatus]
      exact Option.mem_toList.mp htype
    · cases eventOf target <;> simp
    · cases reason <;> exact h

/-- A write on a row that is there leaves it there. -/
theorem row_of_effect {row : Option OrderRow} (h : Effect now (some r) row) : ∃ r', row = some r' := by
  cases h <;> exact ⟨_, rfl⟩

theorem Inv.events_eq_nil (hi : Inv j) (hrow : j.history.row = none) : j.events = [] := by
  have htypes := hi.types
  rw [hrow] at htypes
  exact List.map_eq_nil_iff.mp htypes

theorem Inv.create (hi : Inv j) {requestHash : String}
    (h : step j (.create requestHash p) = some u) : Inv u := by
  simp only [step, Option.bind_eq_bind, Option.bind_eq_some_iff] at h
  obtain ⟨h₁, hs, h⟩ := h
  have hh := (hi.history.step hs).1
  cases hs
  cases hp : j.placed with
  | none =>
    have hrow := hi.placed.mp hp
    have hevents := hi.events_eq_nil hrow
    rw [hp] at h
    cases h
    simp only [hrow, hevents]
    refine ⟨?_, ⟨nofun, nofun⟩, ?_, rfl, List.pairwise_singleton _ _, ?_, ?_, ?_⟩
    · simpa only [hrow] using hh
    · intro e he
      rw [List.mem_singleton.mp he]
      exact ⟨p, rfl, about_payload⟩
    · intro e he
      rw [List.mem_singleton.mp he]
      nofun
    · intro e he
      rw [List.mem_singleton.mp he]
      nofun
    · intro r hr
      cases hr
      nofun
  | some q =>
    have hrow : j.history.row ≠ none := fun h => by
      rw [hi.placed.mpr h] at hp
      cases hp
    obtain ⟨r, hr⟩ := Option.ne_none_iff_exists'.mp hrow
    have hsame : (Writer.createOrder requestHash).write j.history.row p.placedAt =
        j.history.row := by
      rw [hr]
      rfl
    rw [hp] at h
    cases h
    simp only [hsame, if_true]
    rw [← hp]
    exact hi

theorem Inv.write (hi : Inv j) {w : Writer} (hok : Named j (.write w now))
    (h : step j (.write w now) = some u) : Inv u := by
  have hw : ∀ requestHash, w ≠ .createOrder requestHash := by
    rintro requestHash rfl
    cases h
  have hstep : (Lifecycle.step j.history ⟨w, now⟩).bind (fun h => some
      { j with history := h, events := j.events ++ announced j h now (cancelReason w) }) = some u := by
    cases w with
    | createOrder requestHash => exact absurd rfl (hw requestHash)
    | _ => exact h
  obtain ⟨h₁, hs, h⟩ := Option.bind_eq_some_iff.mp hstep
  cases h
  have hh := (hi.history.step hs).1
  have hrow₁ : h₁.row = w.write j.history.row now := by
    cases hs
    rfl
  rcases Option.eq_none_or_eq_some j.placed with hp | ⟨p, hp⟩
  · have hrow := hi.placed.mp hp
    have hnone : h₁.row = none := by
      rw [hrow₁, hrow]
      exact write_none hw
    have hann : announced j h₁ now (cancelReason w) = [] := by
      unfold announced
      rw [hp]
    simp only [hann, List.append_nil]
    have hevents := hi.events_eq_nil hrow
    refine ⟨hh, ?_, hi.about, ?_, hi.riders, ?_, hi.named, ?_⟩
    · simp [hp, hnone]
    · rw [hnone, hevents]
      rfl
    · rw [hevents]
      exact List.forall_mem_nil _
    · intro r hr
      cases hnone.symm.trans hr
  · have hrow : j.history.row ≠ none := fun h => by
      rw [hi.placed.mpr h] at hp
      cases hp
    obtain ⟨r, hr⟩ := Option.ne_none_iff_exists'.mp hrow
    have heff : Effect now (some r) h₁.row := by
      rw [hrow₁, hr]
      exact effect_write w
    obtain ⟨r', hr'⟩ := row_of_effect heff
    rw [hr'] at heff
    obtain ⟨hevents, htypes, -, hrider⟩ := staged_of_effect heff
    have hann : announced j h₁ now (cancelReason w) = (staged (some r) (some r')).map fun type =>
        ⟨type, fullState j.orderId p r' now (cancelReason w)⟩ := by
      unfold announced
      rw [hp, hr', hr]
    have hnew : ∀ e ∈ announced j h₁ now (cancelReason w), About j.orderId p e ∧
        e.payload.riderId = r'.riderId := by
      intro e he
      rw [hann] at he
      obtain ⟨type, htype, rfl⟩ := List.mem_map.mp he
      exact ⟨about_fullState (htypes type htype), rfl⟩
    have hknown : ∀ e ∈ j.events, e.payload.riderId.isSome → r'.riderId.isSome := by
      intro e he hsome
      obtain ⟨r₀, hr₀, hknown⟩ := hi.rider e he hsome
      obtain rfl : r = r₀ := Option.some.inj (hr.symm.trans hr₀)
      exact hrider hknown
    have hnamed : r'.riderId ≠ some "" := by
      have hwrite : w.write (some r) now = some r' := by rw [← hr, ← hrow₁, hr']
      rcases riderId_write hwrite with hsame | ⟨rider, rfl, hrider⟩
      · rw [hsame]
        exact hi.rowNamed r hr
      · rw [hrider]
        exact fun he => hok (Option.some.inj he)
    refine ⟨hh, ?_, ?_, ?_, ?_, ?_, ?_, ?_⟩
    · simp [hp, hr']
    · intro e he
      rcases List.mem_append.mp he with he | he
      · exact hi.about e he
      · exact ⟨p, hp, (hnew e he).1⟩
    · simp only [List.map_append, hi.types, hr, hr', Option.elim_some, hevents, hann, List.map_map]
      congr 1
      exact List.map_id _
    · refine List.pairwise_append.mpr ⟨hi.riders, ?_, fun e he e' he' hsome => ?_⟩
      · refine List.Pairwise.imp_of_mem (fun he he' _ hsome => ?_) (List.pairwise_of_forall
          fun _ _ => trivial)
        rw [(hnew _ he').2, ← (hnew _ he).2]
        exact hsome
      · rw [(hnew e' he').2]
        exact hknown e he hsome
    · intro e he hsome
      refine ⟨r', hr', ?_⟩
      rcases List.mem_append.mp he with he | he
      · exact hknown e he hsome
      · rw [← (hnew e he).2]
        exact hsome
    · intro e he
      rcases List.mem_append.mp he with he | he
      · exact hi.named e he
      · rw [(hnew e he).2]
        exact hnamed
    · intro r₁ hr₁
      obtain rfl : r' = r₁ := Option.some.inj (hr'.symm.trans hr₁)
      exact hnamed

theorem Inv.repoint (hi : Inv j) {restaurantId brandId : String}
    (h : step j (.repointBrand restaurantId brandId) = some u) : Inv u := by
  cases h
  refine ⟨hi.history, ?_, fun e he => ?_, hi.types, hi.riders, hi.rider, hi.named, hi.rowNamed⟩
  · rw [← hi.placed]
    exact Option.map_eq_none_iff
  · obtain ⟨p, hp, habout⟩ := hi.about e he
    rw [hp, Option.map_some]
    refine ⟨_, rfl, ?_⟩
    split
    · next hnone =>
      refine ⟨habout.orderId, habout.userId, habout.restaurantId, fun b hb => ?_, habout.totals,
        habout.status⟩
      -- an event with a brand was staged by a row with one
      have hbrand := habout.brandId b hb
      rw [hnone.2] at hbrand
      cases hbrand
    · exact habout

/-- **The events that the order service stages for an order.** -/
theorem coherent_of_run {orderId : OrderId} {cs : List Change}
    (h : Run step Named (.start orderId) cs j) : Coherent orderId j.events := by
  have hkeeps : Inv j ∧ j.orderId = orderId := by
    refine h.invariant (I := fun j => Inv j ∧ j.orderId = orderId) ⟨inv_start orderId, rfl⟩
      fun j c u hi hok hs => ?_
    obtain ⟨hi, rfl⟩ := hi
    cases c with
    | create requestHash p => exact ⟨hi.create hs, orderId_step hs⟩
    | write w now => exact ⟨hi.write hok hs, orderId_step hs⟩
    | repointBrand restaurantId brandId => exact ⟨hi.repoint hs, orderId_step hs⟩
  obtain ⟨hi, rfl⟩ := hkeeps
  refine ⟨?_, ?_, hi.riders, hi.named⟩
  · cases hp : j.placed with
    | none =>
      refine ⟨⟨"", "", none, [], ⟨none, none⟩, 0⟩, fun e he => ?_⟩
      obtain ⟨p, hp', -⟩ := hi.about e he
      rw [hp] at hp'
      cases hp'
    | some p =>
      refine ⟨p, fun e he => ?_⟩
      obtain ⟨q, hq, habout⟩ := hi.about e he
      obtain rfl : p = q := Option.some.inj (hp.symm.trans hq)
      exact habout
  · rw [hi.types]
    rcases hi.history with ⟨hrow, -⟩ | ⟨r, hrow, hfollows⟩
    · rw [hrow]
      exact .nil
    · rw [hrow]
      exact hfollows.nodup.2

end

end Order.Emission
