/-
What an owner reads, and whose rows it depends on.

* `Database`, `Scoped`, `claimCites` — the tables, and which rows a claim owns;
* `daily`, `restaurantLifetime`, `funnel`, `restaurantCounts`, `restaurantAssistantViews`,
  `restaurantAssistantConversion` — the reads;
* `Agree` — two databases agree on what belongs to a claim;
* `strays` — viewers whom nothing but the orders of others has converted;
* `dashboard_eq_iff` — on databases that agree, the reads are the same exactly if there are as
  many strays.

Instants are in microseconds.
-/
import SmartFoodOps.Analytics.Facts
import Mathlib.Data.Finset.Card
import Mathlib.Data.Finset.Sort
import Mathlib.Algebra.BigOperators.Group.List.Basic

open Keyed

namespace Analytics

/-! ### Tables -/

/-- A row of `restaurant_brands`. -/
structure BrandRow where
  restaurantId : String
  brandId : String
  deriving DecidableEq

structure Database where
  orderFacts : OrderFacts
  menuViews : MenuViews
  assistantFacts : AssistantFacts
  restaurantBrands : Table BrandRow String BrandRow.restaurantId

/-! ### Conditions -/

/-- `_scoped`. -/
def Scoped (restaurantId : String) (brandId : Option String) (claim : String) : Prop :=
  restaurantId = claim ∨ brandId = some claim

instance (restaurantId : String) (brandId : Option String) (claim : String) :
    Decidable (Scoped restaurantId brandId claim) := inferInstanceAs (Decidable (_ ∨ _))

abbrev OrderFact.Scoped (f : OrderFact) (claim : String) : Prop :=
  Analytics.Scoped f.restaurantId f.brandId claim

abbrev MenuView.Scoped (v : MenuView) (claim : String) : Prop :=
  Analytics.Scoped v.restaurantId v.brandId claim

def second : ℕ := 1000000
def hour : ℕ := 3600 * second

/-- `sa.func.date`. -/
def date (t : ℕ) : ℕ := t / (24 * hour)

/-- `_ATTRIBUTION_HOURS`. -/
def attributionHours : ℕ := 24

/-- `_within_hours`; no moment is in no window. -/
def WithinHours (start : ℕ) (moment : Option ℕ) (hours : ℕ) : Prop :=
  ∃ m ∈ moment, start ≤ m ∧ m < start + hours * hour

instance (start : ℕ) (moment : Option ℕ) (hours : ℕ) : Decidable (WithinHours start moment hours) :=
  inferInstanceAs (Decidable (∃ m ∈ moment, _))

/-- `column >= since`, of a column that can be NULL. -/
def Since (moment : Option ℕ) (since : ℕ) : Prop := ∃ m ∈ moment, since ≤ m

instance (moment : Option ℕ) (since : ℕ) : Decidable (Since moment since) :=
  inferInstanceAs (Decidable (∃ m ∈ moment, _))

/-- `_claim_cites`: the claim, or a branch that the mapping gives it. -/
def ClaimCites (db : Database) (ids : List String) (claim : String) : Prop :=
  claim ∈ ids ∨ ∃ b ∈ db.restaurantBrands.rows, b.brandId = claim ∧ b.restaurantId ∈ ids

instance (db : Database) (ids : List String) (claim : String) : Decidable (ClaimCites db ids claim) :=
  inferInstanceAs (Decidable (_ ∨ _))

/-! ### Aggregates -/

/-- `count(column)`. -/
def count {ρ α : Type} (column : ρ → Option α) (rows : List ρ) : ℕ :=
  rows.countP fun r => (column r).isSome

/-- `count(distinct column)`. -/
def countDistinct {ρ α : Type} [DecidableEq α] (column : ρ → Option α) (rows : List ρ) : ℕ :=
  (rows.filterMap column).toFinset.card

/-- Settled orders are revenue. -/
def revenueCents (rows : List OrderFact) : ℤ :=
  (rows.map fun f => if f.settledAt.isSome then f.totalCents else 0).sum

/-- `_REJECTION_REASONS`. -/
def rejected (f : OrderFact) : Bool :=
  f.cancelReason = some .restaurantRejected ∨ f.cancelReason = some .restaurantTimeout

/-- `_people`: the empty user is nobody. -/
def people (rows : List AssistantFact) : ℕ :=
  countDistinct (fun a => if a.userId ≠ "" then some a.userId else none) rows

/-! ### Reads -/

structure DailyRow where
  day : ℕ
  orders : ℕ
  cancelled : ℕ
  delivered : ℕ
  revenueCents : ℤ
  deriving DecidableEq

def dailyOf (rows : List OrderFact) : List DailyRow :=
  (((rows.filterMap OrderFact.placedAt).map date).toFinset.sort (· ≤ ·)).map fun day =>
    let rows := rows.filter fun f => f.placedAt.map date = some day
    ⟨day, rows.length, count OrderFact.cancelledAt rows, count OrderFact.deliveredAt rows,
      revenueCents rows⟩

def daily (db : Database) (restaurantId : String) (since : ℕ) : List DailyRow :=
  dailyOf (db.orderFacts.rows.filter fun f => f.Scoped restaurantId ∧ Since f.placedAt since)

structure Lifetime where
  orders : ℕ
  settled : ℕ
  cancelled : ℕ
  revenueCents : ℤ
  customers : ℕ
  repeatCustomers : ℕ
  deriving DecidableEq

def lifetimeOf (rows : List OrderFact) : Lifetime where
  orders := rows.length
  settled := count OrderFact.settledAt rows
  cancelled := count OrderFact.cancelledAt rows
  revenueCents := revenueCents rows
  customers := countDistinct (fun f => some f.userId) rows
  repeatCustomers := ((rows.map OrderFact.userId).toFinset.filter fun u =>
    2 ≤ (rows.map OrderFact.userId).count u).card

def restaurantLifetime (db : Database) (restaurantId : String) : Lifetime :=
  lifetimeOf (db.orderFacts.rows.filter fun f => f.Scoped restaurantId)

structure Funnel where
  views : ℕ
  viewers : ℕ
  convertedViewers : ℕ
  deriving DecidableEq

/-- The order follows the view: the viewer's, at the branch that was viewed, in time. -/
def Follows (f : OrderFact) (v : MenuView) : Prop :=
  v.userId = some f.userId ∧ f.restaurantId = v.restaurantId ∧
    WithinHours v.viewedAt f.placedAt attributionHours

instance (f : OrderFact) (v : MenuView) : Decidable (Follows f v) :=
  inferInstanceAs (Decidable (_ ∧ _))

def funnel (db : Database) (restaurantId : String) (since : ℕ) : Funnel :=
  let viewed := db.menuViews.rows.filter fun v => v.Scoped restaurantId ∧ since ≤ v.viewedAt
  { views := viewed.length
    viewers := countDistinct MenuView.userId viewed
    convertedViewers := countDistinct MenuView.userId (viewed.filter fun v =>
      v.userId.isSome ∧ ∃ f ∈ db.orderFacts.rows, Follows f v) }

structure Counts where
  placed : ℕ
  confirmed : ℕ
  cancelled : ℕ
  rejected : ℕ
  settled : ℕ
  deriving DecidableEq

def countsOf (rows : List OrderFact) : Counts where
  placed := rows.length
  confirmed := count OrderFact.confirmedAt rows
  cancelled := count OrderFact.cancelledAt rows
  rejected := rows.countP rejected
  settled := count OrderFact.settledAt rows

def restaurantCounts (db : Database) (restaurantId : String) (since : ℕ) : Counts :=
  countsOf (db.orderFacts.rows.filter fun f => f.Scoped restaurantId ∧ Since f.placedAt since)

structure AssistantViews where
  turns : ℕ
  customers : ℕ
  deriving DecidableEq

def assistantViewsOf (rows : List AssistantFact) : AssistantViews := ⟨rows.length, people rows⟩

def restaurantAssistantViews (db : Database) (claim : String) (since : ℕ) : AssistantViews :=
  assistantViewsOf (db.assistantFacts.rows.filter fun a =>
    since ≤ a.occurredAt ∧ ClaimCites db a.restaurantIds claim)

structure Conversion where
  naming : ℕ
  converted : ℕ
  orders : ℕ
  revenueCents : ℤ
  windowHours : ℕ
  deriving DecidableEq

/-- The order is the customer's, at this owner, in time. -/
def Pair (f : OrderFact) (a : AssistantFact) (claim : String) : Prop :=
  f.userId = a.userId ∧ a.userId ≠ "" ∧ f.Scoped claim ∧
    WithinHours a.occurredAt f.placedAt attributionHours

instance (f : OrderFact) (a : AssistantFact) (claim : String) : Decidable (Pair f a claim) :=
  inferInstanceAs (Decidable (_ ∧ _))

def restaurantAssistantConversion (db : Database) (claim : String) (since : ℕ) : Conversion :=
  let turns := db.assistantFacts.rows.filter fun a =>
    since ≤ a.occurredAt ∧ a.userId ≠ "" ∧ ClaimCites db a.restaurantIds claim
  let orders := db.orderFacts.rows.filter fun f =>
    Since f.placedAt since ∧ f.userId ≠ "" ∧ f.Scoped claim ∧
      ∃ a ∈ db.assistantFacts.rows, Pair f a claim ∧ ClaimCites db a.restaurantIds claim
  { naming := turns.length
    converted := turns.countP fun a => ∃ f ∈ db.orderFacts.rows, Pair f a claim
    orders := orders.length
    revenueCents := revenueCents orders
    windowHours := attributionHours }

/-- What an owner reads. -/
structure Dashboard where
  daily : List DailyRow
  lifetime : Lifetime
  funnel : Funnel
  counts : Counts
  assistantViews : AssistantViews
  assistantConversion : Conversion
  deriving DecidableEq

def dashboard (db : Database) (claim : String) (since : ℕ) : Dashboard where
  daily := daily db claim since
  lifetime := restaurantLifetime db claim
  funnel := funnel db claim since
  counts := restaurantCounts db claim since
  assistantViews := restaurantAssistantViews db claim since
  assistantConversion := restaurantAssistantConversion db claim since

/-! ### Rows in another order -/

section

variable {ρ α : Type} {rows rows' : List ρ} {facts facts' : List OrderFact}

theorem count_perm {column : ρ → Option α} (h : rows.Perm rows') :
    count column rows = count column rows' := h.countP_eq _

theorem countDistinct_perm [DecidableEq α] {column : ρ → Option α} (h : rows.Perm rows') :
    countDistinct column rows = countDistinct column rows' := by
  unfold countDistinct
  rw [List.toFinset_eq_of_perm _ _ (h.filterMap column)]

theorem revenueCents_perm (h : facts.Perm facts') : revenueCents facts = revenueCents facts' :=
  (h.map _).sum_eq

theorem dailyOf_perm (h : facts.Perm facts') : dailyOf facts = dailyOf facts' := by
  unfold dailyOf
  rw [List.toFinset_eq_of_perm _ _ ((h.filterMap OrderFact.placedAt).map date)]
  refine List.map_congr_left fun day _ => ?_
  have hday := h.filter fun f => f.placedAt.map date = some day
  simp only [hday.length_eq, count_perm hday, revenueCents_perm hday]

theorem lifetimeOf_perm (h : facts.Perm facts') : lifetimeOf facts = lifetimeOf facts' := by
  have hcount : ∀ u, (facts.map OrderFact.userId).count u = (facts'.map OrderFact.userId).count u :=
    fun u => (h.map _).count_eq u
  unfold lifetimeOf
  rw [h.length_eq, count_perm h, count_perm h, revenueCents_perm h, countDistinct_perm h,
    List.toFinset_eq_of_perm _ _ (h.map OrderFact.userId)]
  simp only [hcount]

theorem countsOf_perm (h : facts.Perm facts') : countsOf facts = countsOf facts' := by
  unfold countsOf
  rw [h.length_eq, count_perm h, count_perm h, h.countP_eq, count_perm h]

theorem assistantViewsOf_perm {turns turns' : List AssistantFact} (h : turns.Perm turns') :
    assistantViewsOf turns = assistantViewsOf turns' := by
  unfold assistantViewsOf people
  rw [h.length_eq, countDistinct_perm h]

end

/-! ### What belongs to a claim -/

/-- Two databases agree on what belongs to a claim. -/
structure Agree (claim : String) (db db' : Database) : Prop where
  orderFacts : ∀ f : OrderFact, f.Scoped claim → (f ∈ db.orderFacts ↔ f ∈ db'.orderFacts)
  menuViews : ∀ v : MenuView, v.Scoped claim → (v ∈ db.menuViews ↔ v ∈ db'.menuViews)
  restaurantBrands : ∀ b : BrandRow, b.restaurantId = claim ∨ b.brandId = claim →
    (b ∈ db.restaurantBrands ↔ b ∈ db'.restaurantBrands)
  assistantFacts : ∀ a : AssistantFact, ClaimCites db a.restaurantIds claim →
    (a ∈ db.assistantFacts ↔ a ∈ db'.assistantFacts)

section

variable {claim : String} {db db' : Database} {since : ℕ}

theorem Agree.claimCites (h : Agree claim db db') {ids : List String} :
    ClaimCites db ids claim ↔ ClaimCites db' ids claim := by
  refine or_congr_right (exists_congr fun b => ?_)
  constructor
  · rintro ⟨hb, hbrand, hid⟩
    exact ⟨(h.restaurantBrands b (.inr hbrand)).mp hb, hbrand, hid⟩
  · rintro ⟨hb, hbrand, hid⟩
    exact ⟨(h.restaurantBrands b (.inr hbrand)).mpr hb, hbrand, hid⟩

/-- Conditions that select orders of the claim. -/
theorem Agree.perm_orders (h : Agree claim db db') {p q : OrderFact → Bool}
    (hp : ∀ f, p f → f.Scoped claim) (hpq : ∀ f, p f ↔ q f) :
    (db.orderFacts.rows.filter p).Perm (db'.orderFacts.rows.filter q) := by
  refine Table.perm_filter fun f => ?_
  constructor
  · rintro ⟨hf, hpf⟩
    exact ⟨(h.orderFacts f (hp f hpf)).mp hf, (hpq f).mp hpf⟩
  · rintro ⟨hf, hqf⟩
    have hpf := (hpq f).mpr hqf
    exact ⟨(h.orderFacts f (hp f hpf)).mpr hf, hpf⟩

/-- Conditions that select turns which cite the claim. -/
theorem Agree.perm_turns (h : Agree claim db db') {p q : AssistantFact → Bool}
    (hp : ∀ a, p a → ClaimCites db a.restaurantIds claim) (hpq : ∀ a, p a ↔ q a) :
    (db.assistantFacts.rows.filter p).Perm (db'.assistantFacts.rows.filter q) := by
  refine Table.perm_filter fun a => ?_
  constructor
  · rintro ⟨ha, hpa⟩
    exact ⟨(h.assistantFacts a (hp a hpa)).mp ha, (hpq a).mp hpa⟩
  · rintro ⟨ha, hqa⟩
    have hpa := (hpq a).mpr hqa
    exact ⟨(h.assistantFacts a (hp a hpa)).mpr ha, hpa⟩

theorem Agree.perm_views (h : Agree claim db db') {p : MenuView → Bool}
    (hp : ∀ v, p v → v.Scoped claim) :
    (db.menuViews.rows.filter p).Perm (db'.menuViews.rows.filter p) :=
  Table.perm_filter fun v => and_congr_left fun hpv => h.menuViews v (hp v hpv)

theorem Agree.daily (h : Agree claim db db') : daily db claim since = daily db' claim since :=
  dailyOf_perm (h.perm_orders (fun _ hf => (of_decide_eq_true hf).1) fun _ => Iff.rfl)

theorem Agree.restaurantLifetime (h : Agree claim db db') :
    restaurantLifetime db claim = restaurantLifetime db' claim :=
  lifetimeOf_perm (h.perm_orders (fun _ hf => of_decide_eq_true hf) fun _ => Iff.rfl)

theorem Agree.restaurantCounts (h : Agree claim db db') :
    restaurantCounts db claim since = restaurantCounts db' claim since :=
  countsOf_perm (h.perm_orders (fun _ hf => (of_decide_eq_true hf).1) fun _ => Iff.rfl)

theorem Agree.restaurantAssistantViews (h : Agree claim db db') :
    restaurantAssistantViews db claim since = restaurantAssistantViews db' claim since := by
  refine assistantViewsOf_perm (h.perm_turns (fun _ ha => (of_decide_eq_true ha).2) fun a => ?_)
  simp only [decide_eq_true_eq, h.claimCites]

/-- Orders that a pair is about are the claim's. -/
theorem Agree.exists_pair (h : Agree claim db db') {a : AssistantFact} :
    (∃ f ∈ db.orderFacts.rows, Pair f a claim) ↔ ∃ f ∈ db'.orderFacts.rows, Pair f a claim :=
  exists_congr fun f => and_congr_left fun hpair => h.orderFacts f hpair.2.2.1

theorem Agree.exists_turn (h : Agree claim db db') {f : OrderFact} :
    (∃ a ∈ db.assistantFacts.rows, Pair f a claim ∧ ClaimCites db a.restaurantIds claim) ↔
      ∃ a ∈ db'.assistantFacts.rows, Pair f a claim ∧ ClaimCites db' a.restaurantIds claim := by
  refine exists_congr fun a => ?_
  rw [← h.claimCites]
  exact and_congr_left fun hcites => h.assistantFacts a hcites.2

theorem Agree.restaurantAssistantConversion (h : Agree claim db db') :
    restaurantAssistantConversion db claim since = restaurantAssistantConversion db' claim since := by
  have hturns : (db.assistantFacts.rows.filter fun a =>
      since ≤ a.occurredAt ∧ a.userId ≠ "" ∧ ClaimCites db a.restaurantIds claim).Perm
      (db'.assistantFacts.rows.filter fun a =>
        since ≤ a.occurredAt ∧ a.userId ≠ "" ∧ ClaimCites db' a.restaurantIds claim) := by
    refine h.perm_turns (fun _ ha => (of_decide_eq_true ha).2.2) fun a => ?_
    simp only [decide_eq_true_eq, h.claimCites]
  have horders : (db.orderFacts.rows.filter fun f => Since f.placedAt since ∧ f.userId ≠ "" ∧
      f.Scoped claim ∧ ∃ a ∈ db.assistantFacts.rows,
        Pair f a claim ∧ ClaimCites db a.restaurantIds claim).Perm
      (db'.orderFacts.rows.filter fun f => Since f.placedAt since ∧ f.userId ≠ "" ∧
        f.Scoped claim ∧ ∃ a ∈ db'.assistantFacts.rows,
          Pair f a claim ∧ ClaimCites db' a.restaurantIds claim) := by
    refine h.perm_orders (fun _ hf => (of_decide_eq_true hf).2.2.1) fun f => ?_
    simp only [decide_eq_true_eq, h.exists_turn]
  unfold Analytics.restaurantAssistantConversion
  simp only [hturns.length_eq, horders.length_eq, revenueCents_perm horders, h.exists_pair,
    hturns.countP_eq]

/-! ### Strays -/

/-- The views of a claim in the window. -/
def viewed (db : Database) (claim : String) (since : ℕ) : List MenuView :=
  db.menuViews.rows.filter fun v => v.Scoped claim ∧ since ≤ v.viewedAt

/-- The viewers whom an order has converted, and whom one of the claim's orders has. -/
def converted (db : Database) (claim : String) (since : ℕ) : Finset String :=
  (((viewed db claim since).filter fun v => v.userId.isSome ∧
    ∃ f ∈ db.orderFacts.rows, Follows f v).filterMap MenuView.userId).toFinset

def ownConverted (db : Database) (claim : String) (since : ℕ) : Finset String :=
  (((viewed db claim since).filter fun v => v.userId.isSome ∧
    ∃ f ∈ db.orderFacts.rows, f.Scoped claim ∧ Follows f v).filterMap MenuView.userId).toFinset

/-- Viewers whom nothing but orders that do not carry the claim has converted. -/
def strays (db : Database) (claim : String) (since : ℕ) : Finset String :=
  converted db claim since \ ownConverted db claim since

theorem ownConverted_subset : ownConverted db claim since ⊆ converted db claim since := by
  intro u hu
  unfold ownConverted at hu
  unfold converted
  rw [List.mem_toFinset, List.mem_filterMap] at hu ⊢
  obtain ⟨v, hv, huser⟩ := hu
  obtain ⟨hmem, hcond⟩ := List.mem_filter.mp hv
  obtain ⟨hsome, f, hf, -, hfollows⟩ := of_decide_eq_true hcond
  exact ⟨v, List.mem_filter.mpr ⟨hmem, decide_eq_true ⟨hsome, f, hf, hfollows⟩⟩, huser⟩

theorem Agree.perm_viewed (h : Agree claim db db') :
    (viewed db claim since).Perm (viewed db' claim since) :=
  h.perm_views fun _ hv => (of_decide_eq_true hv).1

theorem Agree.ownConverted (h : Agree claim db db') :
    ownConverted db claim since = ownConverted db' claim since := by
  have hfollows : ∀ v, (∃ f ∈ db.orderFacts.rows, f.Scoped claim ∧ Follows f v) ↔
      ∃ f ∈ db'.orderFacts.rows, f.Scoped claim ∧ Follows f v := fun v =>
    exists_congr fun f => and_congr_left fun hf => h.orderFacts f hf.1
  unfold Analytics.ownConverted
  simp only [hfollows]
  exact List.toFinset_eq_of_perm _ _ ((h.perm_viewed.filter _).filterMap _)

/-- The funnel counts its own conversions and the strays. -/
theorem convertedViewers_eq :
    (funnel db claim since).convertedViewers =
      (strays db claim since).card + (ownConverted db claim since).card :=
  (Finset.card_sdiff_add_card_eq_card ownConverted_subset).symm

theorem Agree.funnel_eq_iff (h : Agree claim db db') :
    funnel db claim since = funnel db' claim since ↔
      (strays db claim since).card = (strays db' claim since).card := by
  have hviews : (funnel db claim since).views = (funnel db' claim since).views :=
    h.perm_viewed.length_eq
  have hviewers : (funnel db claim since).viewers = (funnel db' claim since).viewers :=
    countDistinct_perm h.perm_viewed
  have hconverted := @convertedViewers_eq claim db since
  have hconverted' := @convertedViewers_eq claim db' since
  rw [← h.ownConverted] at hconverted'
  constructor
  · intro heq
    rw [heq] at hconverted
    omega
  · intro hcard
    have heq : (funnel db claim since).convertedViewers = (funnel db' claim since).convertedViewers := by
      omega
    cases hf : funnel db claim since
    cases hf' : funnel db' claim since
    rw [hf, hf'] at hviews hviewers heq
    rw [Funnel.mk.injEq]
    exact ⟨hviews, hviewers, heq⟩

/-- **On databases that agree on what belongs to a claim, its owner reads the same exactly if
others' orders have converted equally many of his viewers on their own.** -/
theorem dashboard_eq_iff (h : Agree claim db db') :
    dashboard db claim since = dashboard db' claim since ↔
      (strays db claim since).card = (strays db' claim since).card := by
  rw [← h.funnel_eq_iff]
  unfold dashboard
  rw [h.daily, h.restaurantLifetime, h.restaurantCounts, h.restaurantAssistantViews,
    h.restaurantAssistantConversion]
  constructor
  · intro heq
    exact congrArg Dashboard.funnel heq
  · intro heq
    rw [heq]

end

/-! ### A branch that has moved -/

/-- An order of a branch. -/
def orderOf (orderId restaurantId : String) (brandId : Option String) (userId : String)
    (placedAt : ℕ) : OrderFact where
  orderId := orderId
  cells
    | .restaurantId => restaurantId
    | .brandId => brandId
    | .userId => userId
    | .status => Order.OrderStatus.placed
    | .totalCents => (2500 : ℤ)
    | .placedAt => some placedAt
    | .confirmedAt | .deliveredAt | .cancelledAt | .settledAt => (none : Option ℕ)
    | .riderId => (none : Option String)
    | .cancelReason => (none : Option Order.CancelReason)
    | .updatedAt => placedAt

/-- A view of the branch, while it was the claim's. -/
def browsed : MenuViews := Table.empty.put ⟨"viw_1", "rst_1", some "brd_1", some "usr_1", 0⟩

/-- The viewer's order, after the branch has moved to another brand. -/
def moved : Database :=
  ⟨Table.empty.put (orderOf "ord_1" "rst_1" (some "brd_2") "usr_1" hour), browsed, .empty, .empty⟩

/-- The same without the order. -/
def quiet : Database := ⟨.empty, browsed, .empty, .empty⟩

/-- The same, but the order is from a branch of the other brand that has never been the claim's. -/
def elsewhere : Database :=
  ⟨Table.empty.put (orderOf "ord_1" "rst_2" (some "brd_2") "usr_1" hour), browsed, .empty, .empty⟩

/-- Orders of another brand belong to nobody else. -/
theorem agree_of_foreign {f : OrderFact} (hf : ¬ f.Scoped "brd_1") :
    Agree "brd_1" ⟨Table.empty.put f, browsed, .empty, .empty⟩ quiet := by
  refine ⟨fun g hg => ?_, fun _ _ => Iff.rfl, fun _ _ => Iff.rfl, fun _ _ => Iff.rfl⟩
  rw [Table.mem_put]
  constructor
  · rintro (rfl | ⟨hmem, -⟩)
    · exact absurd hg hf
    · exact hmem
  · intro hmem
    exact absurd hmem Table.not_mem_empty

theorem dashboard_eq_elsewhere : Agree "brd_1" elsewhere quiet ∧
    dashboard elsewhere "brd_1" 0 = dashboard quiet "brd_1" 0 := by
  have hagree : Agree "brd_1" elsewhere quiet := agree_of_foreign (by decide)
  exact ⟨hagree, (dashboard_eq_iff hagree).mpr (by decide)⟩

/-- **Another tenant's order moves the owner's funnel.** -/
theorem funnel_moved : ¬ ∀ (claim : String) (db db' : Database) (since : ℕ),
    Agree claim db db' → dashboard db claim since = dashboard db' claim since := by
  intro h
  have heq := h "brd_1" moved quiet 0 (agree_of_foreign (by decide))
  have hfunnel : (funnel moved "brd_1" 0).convertedViewers =
      (funnel quiet "brd_1" 0).convertedViewers := by
    have hf := congrArg Dashboard.funnel heq
    exact congrArg Funnel.convertedViewers hf
  exact absurd hfunnel (by decide)

end Analytics
