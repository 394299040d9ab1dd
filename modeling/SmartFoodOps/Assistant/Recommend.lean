/-
Recommendations, and what a customer is offered in a city.

* `textsByItem`, `popular`, `forUser` — what the city orders, and the dishes that suit a customer;
* `pairsIn`, `hydrate`, `combine` — dishes that are ordered together, at the restaurant of the orders;
* `recommendations` — the priced dishes and the priced combinations;
* `offered_of_forUser`, `offered_of_hydrate` — both kinds of passages are of the city;
* `inCity_iff_lastIsNear` — everything offered is in the city, but for the cards of a message whose
  dish is looked up at a branch in another one.
-/
import SmartFoodOps.Assistant.Attribution
import SmartFoodOps.Assistant.Cards

open Dispatch (OrderId)
open Assistant.Attribution (OrderItem)

namespace Assistant

variable {V : Type}

/-! ### Dishes that can be shown -/

def orderable (facts : ItemFacts) : Bool := facts.available && facts.status = "open"

/-- `texts_by_item`; the city and the restaurant are predicates where they are given. -/
def textsByItem (index : Index V) (itemIds : List String) (city restaurantId : Option String) :
    Dict String (Row ItemFacts V) :=
  Dict.index (fun row => row.facts.itemId) (index.items.rows.filter fun row =>
    row.facts.itemId ∈ itemIds && orderable row.facts && city.all (row.facts.city = ·) &&
      restaurantId.all (row.restaurantId = ·))

/-- `_passages`. -/
def passagesIn (index : Index V) (city : String) (itemIds : List String) : List Passage :=
  let found := textsByItem index itemIds (some city) none
  itemIds.eraseDups.filterMap fun i =>
    (found.get i).map fun row => ⟨i, row.restaurantId, row.content⟩

/-! ### Popularity -/

/-- `WINDOW`, in seconds. -/
def popularWindow : ℕ := 30 * 24 * 60 * 60

/-- `hours_around`: the hours of day of one meal. -/
def hoursAround (hour : ℕ) : List ℕ := [(hour + 23) % 24, hour % 24, (hour + 1) % 24]

structure Popular where
  itemId : String
  orders : ℕ
  units : ℤ
  deriving DecidableEq

def Popular.counted (itemId : String) (rows : List OrderItem) : Popular where
  itemId := itemId
  orders := (rows.map OrderItem.orderId).dedup.length
  units := (rows.map OrderItem.qty).sum

/-- The restaurants of a city. -/
def restaurantsIn (index : Index V) (city : String) : List String :=
  (index.restaurants.rows.filter fun row => row.facts.city = city).map Row.restaurantId

/-- What a recommendation is asked for, and when. -/
structure Ask where
  city : String
  now : ℕ
  hour : ℕ

section

variable (hourOf : ℕ → ℕ) (orders : List OrderItem) (index : Index V) (ask : Ask)

/-- `popular_in`; the hour of a time is the database's. -/
def popularIn : List Popular :=
  (Dict.groupBy OrderItem.itemId (orders.filter fun row =>
    row.restaurantId ∈ restaurantsIn index ask.city && ask.now - popularWindow ≤ row.placedAt &&
      hourOf row.placedAt ∈ hoursAround ask.hour)).entries.map fun g => Popular.counted g.1 g.2

/-- `rank`: by orders, then by units, then by dish. -/
def rank (rows : List Popular) (limit : ℕ) : List Popular :=
  (rows.insertionSort fun a b => b.orders < a.orders ∨ a.orders = b.orders ∧
    (b.units < a.units ∨ a.units = b.units ∧ a.itemId ≤ b.itemId)).take limit

/-- `any_in`: what can be ordered, the cheapest first. -/
def anyIn (city : String) (limit : ℕ) : List String :=
  (((index.items.rows.filter fun row => row.facts.city = city && orderable row.facts).insertionSort
    fun a b => a.facts.priceCents < b.facts.priceCents ∨
      a.facts.priceCents = b.facts.priceCents ∧ a.facts.itemId ≤ b.facts.itemId).take limit).map
    (fun row => row.facts.itemId) |>.eraseDups

/-- `popular`: what the city orders around this hour, or else what there is. -/
def popular (limit : ℕ) : List Passage :=
  let ordered := rank (popularIn hourOf orders index ask) limit
  if ordered = [] then passagesIn index ask.city (anyIn index ask.city limit)
  else passagesIn index ask.city (ordered.map Popular.itemId)

end

/-! ### Taste -/

structure Taste where
  cuisines : Dict String ℕ
  tags : Dict String ℕ
  restaurants : Dict String ℕ
  ordered : List String
  orders : ℕ

/-- `thin`: fewer orders than `MIN_ORDERS`. -/
def Taste.thin (t : Taste) : Bool := t.orders < 2

structure Attributes where
  itemId : String
  restaurantId : String
  cuisines : List String
  tags : List String
  deriving DecidableEq

/-- `_affinity`: the best match, as a part of the profile's largest count.  A Python float is an exact
rational here, so scores that only rounding tells apart are equal. -/
def affinity (counts : Dict String ℕ) (attributes : List String) : ℚ :=
  (attributes.map fun a => (counts.get a).getD 0).foldl max 0 / (counts.values.foldl max 0 : ℕ)

/-- `score`; the cuisine, the tag, the familiar kitchen and the new dish, each with its weight, which
is the decimal that the source writes. -/
def score (t : Taste) (item : Attributes) : ℚ :=
  affinity t.cuisines item.cuisines + 6 / 10 * affinity t.tags item.tags +
    3 / 10 * affinity t.restaurants [item.restaurantId] +
    if item.itemId ∈ t.ordered then 0 else 25 / 100

/-- `recommend`. -/
def recommend (t : Taste) (candidates : List Attributes) (limit : ℕ) : List Attributes :=
  (candidates.insertionSort fun a b => score t b < score t a ∨
    score t a = score t b ∧ a.itemId ≤ b.itemId).take limit

/-- `menu_attributes`. -/
def menuAttributes (index : Index V) (city : String) : List Attributes :=
  (index.items.rows.filter fun row => row.facts.city = city && orderable row.facts).map fun row =>
    ⟨row.facts.itemId, row.restaurantId, row.facts.cuisines, row.facts.tags⟩

inductive Basis
  | popular
  | taste
  deriving DecidableEq

section

variable (hourOf : ℕ → ℕ) (orders : List OrderItem) (index : Index V) (ask : Ask)

/-- `for_user`, with the customer's profile. -/
def forUser (profile : Option Taste) (limit : ℕ) : Basis × List Passage :=
  let baseline := (Basis.popular, popular hourOf orders index ask limit)
  match profile with
  | none => baseline
  | some taste =>
    let candidates := menuAttributes index ask.city
    if taste.thin ∨ candidates = [] then baseline
    else
      let unique := (Dict.gather Attributes.itemId (fun c first => first.getD c) candidates).values
      (.taste, passagesIn index ask.city ((recommend taste unique limit).map Attributes.itemId))

end

/-! ### Combinations -/

/-- Two dishes of a restaurant, and in how many orders they are together. -/
structure Pair where
  restaurantId : String
  first : String
  second : String
  orders : ℕ
  deriving DecidableEq

def Pair.keys (p : Pair) : List (String × String) :=
  [(p.restaurantId, p.first), (p.restaurantId, p.second)]

/-- The rows that a pair of dishes of one order makes, below the smaller dish. -/
def joined (orders : List OrderItem) (row : OrderItem) :
    List ((String × String × String) × OrderId) :=
  (orders.filter fun other => other.orderId = row.orderId && other.restaurantId = row.restaurantId
    && row.itemId < other.itemId).map fun other =>
      ((row.restaurantId, row.itemId, other.itemId), row.orderId)

/-- `co_ordered`, and `pairs_in` with its limit. -/
def pairsIn (orders : List OrderItem) (index : Index V) (ask : Ask) (limit : ℕ) : List Pair :=
  let rows := (orders.filter fun row => row.restaurantId ∈ restaurantsIn index ask.city &&
    ask.now - popularWindow ≤ row.placedAt).flatMap (joined orders)
  (((Dict.groupBy Prod.fst rows).entries.map fun g =>
    (⟨g.1.1, g.1.2.1, g.1.2.2, (g.2.map Prod.snd).dedup.length⟩ : Pair)).insertionSort
      fun a b => b.orders ≤ a.orders).take limit

/-- `hydrate`: each dish at the restaurant that it is pinned to. -/
def hydrate (index : Index V) (pinned : List (String × String)) : List Passage :=
  pinned.eraseDups.filterMap fun p =>
    ((textsByItem index [p.2] none (some p.1)).get p.2).map fun row => ⟨p.2, p.1, row.content⟩

structure Combo where
  pair : Pair
  totalCents : ℤ
  deriving DecidableEq

/-- What a pair costs, if both dishes have a floor and the budget holds them. -/
def Pair.combo (p : Pair) (floors : Dict (String × String) Card) (budget : Option ℤ) :
    Option Combo :=
  match floors.get (p.restaurantId, p.first), floors.get (p.restaurantId, p.second) with
  | some left, some right =>
    let total := left.minTotalCents + right.minTotalCents
    if budget.all (total ≤ ·) then some ⟨p, total⟩ else none
  | _, _ => none

/-- `combine`. -/
def combine (pairs : List Pair) (floors : Dict (String × String) Card) (budget : Option ℤ)
    (limit : ℕ) : List Combo :=
  ((pairs.filterMap fun p => p.combo floors budget).insertionSort fun a b =>
    b.pair.orders < a.pair.orders ∨ a.pair.orders = b.pair.orders ∧
      (a.totalCents < b.totalCents ∨
        a.totalCents = b.totalCents ∧ a.pair.first ≤ b.pair.first)).take limit

/-! ### The request -/

structure ComboCards where
  items : List Card
  totalCents : ℤ
  orders : ℕ
  deriving DecidableEq

structure Recommended where
  basis : Basis
  items : List Card
  combos : List ComboCards
  deriving DecidableEq

def Card.key (c : Card) : String × String := (c.restaurantId, c.itemId)

def Passage.key (p : Passage) : String × String := (p.restaurantId, p.itemId)

/-- `affordable`, where there is a budget. -/
def affordable (shown : List Card) (budget : Option ℤ) : List Card :=
  shown.filter fun c => budget.all (c.minTotalCents ≤ ·)

/-- The limit of `pairs_in`. -/
def pairLimit : ℕ := 200

section

variable (hourOf : ℕ → ℕ) (orders : List OrderItem) (index : Index V) (catalog : Catalog)
  (ask : Ask) (profile : Option Taste) (budget : Option ℤ) (limit : ℕ)

/-- The cards of the recommended dishes and of the paired ones. -/
def pricedCards (passages : List Passage) (pairs : List Pair) : List Card :=
  let paired := hydrate index (pairs.flatMap Pair.keys)
  forItems catalog (passages ++ paired.filter fun p => p.key ∉ passages.map Passage.key)

/-- `recommendations`. -/
def recommendations : Recommended :=
  let found := forUser hourOf orders index ask profile
    (if budget = none then limit else limit * 8)
  let pairs := pairsIn orders index ask pairLimit
  let cards := pricedCards index catalog found.2 pairs
  let floors := Dict.index Card.key (cards.filter Card.orderable)
  let shown := cards.filter fun c => c.key ∈ found.2.map Passage.key
  let byPair := Dict.index Card.key cards
  { basis := found.1
    items := (affordable shown budget).take limit
    combos := (combine pairs floors budget limit).map fun c =>
      ⟨c.pair.keys.filterMap byPair.get, c.totalCents, c.pair.orders⟩ }

end

/-! ### Passages of the city -/

section

variable {hourOf : ℕ → ℕ} {orders : List OrderItem} {index : Index V} {catalog : Catalog}
  {ask : Ask} {profile : Option Taste} {budget : Option ℤ} {limit : ℕ} {city r i : String}
  {p : Passage} {c : Card}

/-- A text is that of a dish's row, under the predicates. -/
theorem of_get_textsByItem {itemIds : List String} {inCity pinned : Option String}
    {row : Row ItemFacts V} (h : (textsByItem index itemIds inCity pinned).get i = some row) :
    row ∈ index.items ∧ row.facts.itemId = i ∧ (∀ city ∈ inCity, row.facts.city = city) ∧
      ∀ r ∈ pinned, row.restaurantId = r := by
  obtain ⟨hmem, rfl⟩ := Dict.mem_of_get_index h
  obtain ⟨hrow, hpred⟩ := List.mem_filter.mp hmem
  simp only [Bool.and_eq_true] at hpred
  obtain ⟨⟨-, hcity⟩, hpinned⟩ := hpred
  refine ⟨hrow, rfl, ?_, ?_⟩
  · rintro city rfl
    exact of_decide_eq_true hcity
  · rintro r rfl
    exact of_decide_eq_true hpinned

theorem offered_of_passagesIn {itemIds : List String} (h : p ∈ passagesIn index city itemIds) :
    Offered index city p.restaurantId p.itemId := by
  obtain ⟨i, -, hp⟩ := List.mem_filterMap.mp h
  obtain ⟨row, hget, rfl⟩ := Option.map_eq_some_iff.mp hp
  obtain ⟨hrow, hid, hcity, -⟩ := of_get_textsByItem hget
  exact ⟨.inr ⟨row, hrow, rfl, hcity city rfl⟩, row, hrow, rfl, hid⟩

theorem offered_of_popular (h : p ∈ popular hourOf orders index ask limit) :
    Offered index ask.city p.restaurantId p.itemId := by
  unfold popular at h
  dsimp only at h
  split at h
  · exact offered_of_passagesIn h
  · exact offered_of_passagesIn h

/-- **The dishes for a customer**, on either basis. -/
theorem offered_of_forUser (h : p ∈ (forUser hourOf orders index ask profile limit).2) :
    Offered index ask.city p.restaurantId p.itemId := by
  unfold forUser at h
  rcases profile with _ | taste
  · exact offered_of_popular h
  · by_cases hbase : taste.thin ∨ menuAttributes index ask.city = []
    · simp only [if_pos hbase] at h
      exact offered_of_popular h
    · simp only [if_neg hbase] at h
      exact offered_of_passagesIn h

/-- The restaurants of a city have a row with it. -/
theorem located_of_mem_restaurantsIn (h : r ∈ restaurantsIn index city) :
    Located index city r := by
  obtain ⟨row, hrow, rfl⟩ := List.mem_map.mp h
  obtain ⟨hmem, hcity⟩ := List.mem_filter.mp hrow
  exact .inl ⟨row, hmem, rfl, of_decide_eq_true hcity⟩

/-- A pair is of a restaurant of the city. -/
theorem located_of_mem_pairsIn {pair : Pair} (h : pair ∈ pairsIn orders index ask limit) :
    Located index ask.city pair.restaurantId := by
  have hmem := List.mem_insertionSort _ |>.mp (List.mem_of_mem_take h)
  obtain ⟨g, hg, rfl⟩ := List.mem_map.mp hmem
  obtain ⟨x, hx, hkey⟩ := Dict.exists_of_get_gather (Dict.mem_entries.mp hg)
  obtain ⟨row, hrow, hjoined⟩ := List.mem_flatMap.mp hx
  obtain ⟨other, -, rfl⟩ := List.mem_map.mp hjoined
  have hpred := (List.mem_filter.mp hrow).2
  simp only [Bool.and_eq_true, decide_eq_true_eq] at hpred
  show Located index ask.city g.1.1
  rw [← hkey]
  exact located_of_mem_restaurantsIn hpred.1

/-- **A hydrated dish** is one that the restaurant it is pinned to sells. -/
theorem sells_of_hydrate {pinned : List (String × String)} (h : p ∈ hydrate index pinned) :
    p.key ∈ pinned ∧
      ∃ row ∈ index.items, row.restaurantId = p.restaurantId ∧ row.facts.itemId = p.itemId := by
  obtain ⟨q, hq, hp⟩ := List.mem_filterMap.mp h
  obtain ⟨row, hget, rfl⟩ := Option.map_eq_some_iff.mp hp
  obtain ⟨hrow, hid, -, hpinned⟩ := of_get_textsByItem hget
  exact ⟨List.mem_eraseDups.mp hq, row, hrow, hpinned _ rfl, hid⟩

theorem offered_of_hydrate {pairs : List Pair}
    (hpairs : ∀ pair ∈ pairs, Located index city pair.restaurantId)
    (h : p ∈ hydrate index (pairs.flatMap Pair.keys)) :
    Offered index city p.restaurantId p.itemId := by
  obtain ⟨hkey, hsells⟩ := sells_of_hydrate h
  refine ⟨?_, hsells⟩
  obtain ⟨pair, hpair, hmem⟩ := List.mem_flatMap.mp hkey
  have hr : p.restaurantId = pair.restaurantId := by
    have hcases : p.key = (pair.restaurantId, pair.first) ∨
        p.key = (pair.restaurantId, pair.second) := by
      simpa [Pair.keys] using hmem
    rcases hcases with he | he
    · exact congrArg Prod.fst he
    · exact congrArg Prod.fst he
  rw [hr]
  exact hpairs pair hpair

/-! ### Cards of the city -/

/-- **Every card** that a recommendation prices. -/
theorem offered_of_pricedCards {passages : List Passage} {pairs : List Pair}
    (hpassages : ∀ p ∈ passages, Offered index city p.restaurantId p.itemId)
    (hpairs : ∀ pair ∈ pairs, Located index city pair.restaurantId)
    (h : c ∈ pricedCards index catalog passages pairs) :
    Offered index city c.restaurantId c.itemId := by
  refine offered_of_forItems (fun p hp => ?_) h
  rcases List.mem_append.mp hp with hp | hp
  · exact hpassages p hp
  · exact offered_of_hydrate hpairs (List.mem_filter.mp hp).1

/-- **Every recommended card**, and those of every combination. -/
theorem offered_of_recommendations
    (h : c ∈ (recommendations hourOf orders index catalog ask profile budget limit).items ∨
      ∃ x ∈ (recommendations hourOf orders index catalog ask profile budget limit).combos,
        c ∈ x.items) :
    Offered index ask.city c.restaurantId c.itemId := by
  have hall : ∀ c ∈ pricedCards index catalog (forUser hourOf orders index ask profile
      (if budget = none then limit else limit * 8)).2 (pairsIn orders index ask pairLimit),
      Offered index ask.city c.restaurantId c.itemId := fun c hc =>
    offered_of_pricedCards (fun p hp => offered_of_forUser hp)
      (fun pair hpair => located_of_mem_pairsIn hpair) hc
  rcases h with h | ⟨x, hx, hc⟩
  · have hshown := (List.mem_filter.mp (List.mem_of_mem_take h)).1
    exact hall c (List.mem_filter.mp hshown).1
  · obtain ⟨combo, -, rfl⟩ := List.mem_map.mp hx
    obtain ⟨key, -, hget⟩ := List.mem_filterMap.mp hc
    exact hall c (Dict.mem_of_get_index hget).1

end

/-! ### The asker's city -/

/-- A question in a city, what is made of it, and what is read of its answer's message. -/
structure Asked (V : Type) where
  city : String
  index : Index V
  lexical : Leg V
  vector : Leg V
  limit : ℕ
  answer : String
  userId : String
  /-- The index and the catalog when the cards are read. -/
  later : Index V
  catalog : Catalog

/-- A customer's request for recommendations. -/
structure Request (V : Type) where
  hourOf : ℕ → ℕ
  orders : List OrderItem
  index : Index V
  catalog : Catalog
  ask : Ask
  profile : Option Taste
  budget : Option ℤ
  limit : ℕ

namespace Asked

variable (q : Asked V)

def candidates : List Passage := retrieve q.index q.lexical q.vector q.city q.limit

def grounded : Grounded := ground q.answer q.candidates

def cards : Option (List Card) :=
  forMessage q.later q.catalog (some q.userId) q.grounded.itemIds q.userId

/-- Whatever the question leads to is in its city. -/
structure InCity : Prop where
  candidates : ∀ p ∈ q.candidates, Offered q.index q.city p.restaurantId p.itemId
  restaurants : ∀ r ∈ q.grounded.restaurantIds, ∃ i ∈ q.grounded.itemIds,
    Offered q.index q.city r i
  cards : ∀ cs ∈ q.cards, ∀ c ∈ cs, Offered q.later q.city c.restaurantId c.itemId

/-- The row that is found last for a dish of the message is of a restaurant of the city, or of one
that does not answer for the dish. -/
def LastIsNear : Prop :=
  ∀ i row, (lastRows q.later q.grounded.itemIds).get i = some row →
    Located q.later q.city row.restaurantId ∨
      ¬ Served q.catalog q.grounded.itemIds (restaurantsFor q.later q.grounded.itemIds)
        row.restaurantId i

end Asked

def Request.recommended (r : Request V) : Recommended :=
  recommendations r.hourOf r.orders r.index r.catalog r.ask r.profile r.budget r.limit

/-- Every recommended card and every card of a combination is in the city. -/
def Request.InCity (r : Request V) : Prop :=
  ∀ c, (c ∈ r.recommended.items ∨ ∃ x ∈ r.recommended.combos, c ∈ x.items) →
    Offered r.index r.ask.city c.restaurantId c.itemId

/-- **Everything offered is in the asker's city** if and only if the dishes of the message are
looked up there: candidates, restaurants, recommendations and combinations always are. -/
theorem inCity_iff_lastIsNear (q : Asked V) (r : Request V) :
    q.InCity ∧ r.InCity ↔ q.LastIsNear := by
  have hcandidates : ∀ p ∈ q.candidates, Offered q.index q.city p.restaurantId p.itemId :=
    fun p hp => offered_of_retrieve hp
  have hrestaurants : ∀ r ∈ q.grounded.restaurantIds, ∃ i ∈ q.grounded.itemIds,
      Offered q.index q.city r i := fun r hr => offered_of_ground hcandidates hr
  have hrequest : r.InCity := fun c hc => offered_of_recommendations hc
  have hcards : (∀ cs ∈ q.cards, ∀ c ∈ cs, Offered q.later q.city c.restaurantId c.itemId) ↔
      q.LastIsNear := by
    refine Iff.trans ?_ offered_price_iff
    by_cases hnone : q.grounded.itemIds = []
    · -- a message that names no dish has no cards, and nothing to price
      have hempty : q.cards = some [] := by
        unfold Asked.cards forMessage
        rw [if_neg (not_not.mpr rfl), if_pos hnone]
      rw [hempty, hnone]
      refine ⟨fun _ c hc => ?_, fun _ cs hcs c hc => ?_⟩
      · exact absurd (of_mem_price hc).1 List.not_mem_nil
      · cases hcs
        exact absurd hc List.not_mem_nil
    · have hsome : q.cards = some (price q.catalog q.grounded.itemIds
          (restaurantsFor q.later q.grounded.itemIds)) := by
        unfold Asked.cards forMessage
        rw [if_neg (not_not.mpr rfl), if_neg hnone]
      rw [hsome]
      exact ⟨fun h => h _ rfl, fun h cs hcs => by cases hcs; exact h⟩
  constructor
  · rintro ⟨hasked, -⟩
    exact hcards.mp hasked.cards
  · intro hnear
    exact ⟨⟨hcandidates, hrestaurants, hcards.mpr hnear⟩, hrequest⟩

/-- A dish of a brand's branch. -/
def branchDish (restaurantId city : String) : Row ItemFacts Unit :=
  ⟨restaurantId ++ ":d1", restaurantId, "Reker",
    ⟨"d1", city, some "b", [], "Mains", [], "Reker", 900, true, "open"⟩, ()⟩

def branch (restaurantId city : String) : Row RestaurantFacts Unit :=
  ⟨restaurantId ++ ":_self", restaurantId, "Fisk", ⟨city, some "b", [], "open"⟩, ()⟩

/-- The branches of a brand in two cities. -/
def twoBranches : Index Unit where
  restaurants := (Keyed.Table.empty.put (branch "r2" "Bergen")).put (branch "r1" "Oslo")
  items := (Keyed.Table.empty.put (branchDish "r2" "Bergen")).put (branchDish "r1" "Oslo")

/-- A catalog in which every branch has every dish. -/
def everyDish : Catalog where
  snapshot _ itemIds := some ⟨"Fisk", none, some "open", some true,
    itemIds.map fun i => ⟨i, "Reker", 900, "NOK", true, []⟩⟩
  answers := by
    rintro _ itemIds _ ⟨⟩ _ hitem
    obtain ⟨i, hi, rfl⟩ := List.mem_map.mp hitem
    exact hi

theorem rows_subset (rows : List (Row ItemFacts Unit)) : rows ⊆ rows := List.Subset.refl rows

/-- Whatever is under the predicates matches. -/
def anyMatch : Leg Unit := ⟨fun rows => rows, rows_subset⟩

def askedInOslo : Asked Unit :=
  ⟨"Oslo", twoBranches, anyMatch, anyMatch, 8, "Try [item:d1] Reker.", "u1", twoBranches, everyDish⟩

/-- **Another city's branch**: the question finds the dish in Oslo, and its card is Bergen's. -/
theorem card_of_askedInOslo : askedInOslo.candidates = [⟨"d1", "r1", "Reker"⟩] ∧
    ¬ askedInOslo.InCity := by
  refine ⟨by decide +kernel, fun h => ?_⟩
  have hcard : ∃ cs ∈ askedInOslo.cards, ∃ c ∈ cs, c.restaurantId = "r2" := by decide +kernel
  obtain ⟨cs, hcs, c, hc, hr⟩ := hcard
  have hoffered := h.cards cs hcs c hc
  rw [hr] at hoffered
  rcases hoffered.located with ⟨row, hrow, hrid, hcity⟩ | ⟨row, hrow, hrid, hcity⟩
  · have hrows : ∀ row ∈ twoBranches.restaurants.rows, row.restaurantId = "r2" →
        row.facts.city ≠ "Oslo" := by decide +kernel
    exact hrows row hrow hrid hcity
  · have hrows : ∀ row ∈ twoBranches.items.rows, row.restaurantId = "r2" →
        row.facts.city ≠ "Oslo" := by decide +kernel
    exact hrows row hrow hrid hcity

end Assistant
