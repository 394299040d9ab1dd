/-
The cards of dishes: what the catalog says of them when they are looked at.

* `Snapshot`, `Catalog` — the catalog's answer about dishes of a restaurant;
* `minimumTotal`, `cards` — the least that a dish costs, and a card for each dish of an answer;
* `price`, `forItems`, `forMessage` — the cards of dishes whose restaurants are known, of passages,
  and of the dishes that a message names;
* `Served` — the restaurant that a dish is looked up at answers for it;
* `exists_card_iff`, `offered_of_forItems` — the cards there are, and the passages' cards.
-/
import SmartFoodOps.Assistant.Retrieval

namespace Assistant

variable {V : Type}

/-! ### The catalog -/

/-- A group of a dish's options, with the deltas of their prices. -/
structure OptionGroup where
  minSelect : ℤ := 0
  deltas : List ℤ
  deriving DecidableEq

structure Dish where
  id : String
  name : String
  priceCents : ℤ
  currency : String
  available : Bool
  modifierGroups : List OptionGroup := []
  deriving DecidableEq

structure Snapshot where
  name : String
  displayName : Option String := none
  status : Option String
  /-- `none` for a brand, and where an older catalog does not say. -/
  openNow : Option Bool
  items : List Dish
  deriving DecidableEq

/-- The client of the catalog. Without an answer, there are no cards; an answer is about dishes that
were asked for. -/
structure Catalog where
  snapshot : String → List String → Option Snapshot
  answers : ∀ restaurantId itemIds, ∀ s ∈ snapshot restaurantId itemIds, ∀ item ∈ s.items,
    item.id ∈ itemIds

/-! ### Cards -/

/-- `_UNORDERABLE`. -/
def unorderable : ℤ := 10 ^ 9

/-- What a group adds to the least that a dish can cost. -/
def OptionGroup.floor (group : OptionGroup) : ℤ :=
  if group.minSelect ≤ 0 then 0
  else if group.minSelect ≤ group.deltas.length then
    ((group.deltas.insertionSort (· ≤ ·)).take group.minSelect.toNat).sum
  else unorderable

/-- `minimum_total`: the price, with the cheapest of the options that must be chosen. -/
def minimumTotal (item : Dish) : ℤ :=
  item.priceCents + (item.modifierGroups.map OptionGroup.floor).sum

structure Card where
  itemId : String
  name : String
  priceCents : ℤ
  currency : String
  available : Bool
  orderable : Bool
  needsChoice : Bool
  minTotalCents : ℤ
  restaurantId : String
  restaurantName : String
  openNow : Bool
  deriving DecidableEq

def Snapshot.orderable (s : Snapshot) : Bool := s.status = some "open" && s.openNow ≠ some false

def card (restaurantId : String) (s : Snapshot) (item : Dish) : Card where
  itemId := item.id
  name := item.name
  priceCents := item.priceCents
  currency := item.currency
  available := item.available
  orderable := item.available && s.orderable
  needsChoice := item.modifierGroups.any (0 < ·.minSelect)
  minTotalCents := minimumTotal item
  restaurantId := restaurantId
  restaurantName := (s.displayName.filter (· ≠ "")).getD s.name
  openNow := s.openNow ≠ some false

/-- `_cards`. -/
def cards (restaurantId : String) (s : Snapshot) : List Card := s.items.map (card restaurantId s)

/-- The dishes to ask each restaurant for. -/
def grouped (itemIds : List String) (byRestaurant : Dict String String) :
    Dict String (List (String × String)) :=
  Dict.groupBy Prod.fst (itemIds.filterMap fun i => (byRestaurant.get i).map fun r => (r, i))

/-- `_price`: one request for each restaurant, and the cards in the order of the dishes. -/
def price (catalog : Catalog) (itemIds : List String) (byRestaurant : Dict String String) :
    List Card :=
  let found := (grouped itemIds byRestaurant).entries.flatMap fun g =>
    ((catalog.snapshot g.1 (g.2.map Prod.snd)).map (cards g.1)).getD []
  let rank := Dict.index Prod.fst itemIds.zipIdx
  let place := fun c : Card => ((rank.get c.itemId).map Prod.snd).getD rank.entries.length
  found.insertionSort fun a b => place a ≤ place b

/-- `for_items`. -/
def forItems (catalog : Catalog) (passages : List Passage) : List Card :=
  price catalog (passages.map Passage.itemId)
    ((Dict.index Passage.itemId passages).mapValues Passage.restaurantId)

/-- The row that `restaurants_for` finds last for each of the dishes. -/
def lastRows (index : Index V) (itemIds : List String) : Dict String (Row ItemFacts V) :=
  Dict.index (fun row => row.facts.itemId) (index.items.rows.filter fun row =>
    row.facts.itemId ∈ itemIds)

/-- `restaurants_for`. -/
def restaurantsFor (index : Index V) (itemIds : List String) : Dict String String :=
  (lastRows index itemIds).mapValues Row.restaurantId

/-- `for_message`, of a message with its customer and the dishes that it names. -/
def forMessage (index : Index V) (catalog : Catalog) (owner : Option String) (itemIds : List String)
    (userId : String) : Option (List Card) :=
  if owner ≠ some userId then none
  else if itemIds = [] then some []
  else some (price catalog itemIds (restaurantsFor index itemIds))

/-! ### Which cards there are -/

variable {index : Index V} {catalog : Catalog} {itemIds : List String}
  {byRestaurant : Dict String String} {city r i : String} {c : Card}

/-- The restaurant answers for the dish, when it is asked for all the dishes it is known for. -/
def Served (catalog : Catalog) (itemIds : List String) (byRestaurant : Dict String String)
    (r i : String) : Prop :=
  ∃ s ∈ catalog.snapshot r (itemIds.filter fun j => byRestaurant.get j = some r),
    ∃ item ∈ s.items, item.id = i

theorem get_grouped {ps : List (String × String)}
    (h : (grouped itemIds byRestaurant).get r = some ps) :
    ps.map Prod.snd = itemIds.filter fun j => byRestaurant.get j = some r := by
  rw [Dict.eq_of_get_groupBy h]
  clear h
  induction itemIds with
  | nil => rfl
  | cons j js ih =>
    rcases hj : byRestaurant.get j with _ | r'
    · rw [List.filterMap_cons_none (by rw [hj]; rfl),
        List.filter_cons_of_neg (by rw [hj]; simp)]
      exact ih
    · rw [List.filterMap_cons_some (by rw [hj]; rfl)]
      by_cases hr : r' = r
      · rw [List.filter_cons_of_pos (by simpa using hr),
          List.filter_cons_of_pos (by rw [hj, hr]; simp), List.map_cons, ih]
      · rw [List.filter_cons_of_neg (by simpa using hr),
          List.filter_cons_of_neg (by rw [hj]; simpa using hr)]
        exact ih

theorem exists_get_grouped (hi : i ∈ itemIds) (hr : byRestaurant.get i = some r) :
    ∃ ps, (grouped itemIds byRestaurant).get r = some ps := by
  have hmem : (r, i) ∈ itemIds.filterMap fun j => (byRestaurant.get j).map fun r => (r, j) :=
    List.mem_filterMap.mpr ⟨i, hi, by rw [hr]; rfl⟩
  exact Dict.get_gather_of_mem hmem

/-- A card is of a dish that was asked for, and of the restaurant that answered for it. -/
theorem of_mem_price (h : c ∈ price catalog itemIds byRestaurant) :
    c.itemId ∈ itemIds ∧ byRestaurant.get c.itemId = some c.restaurantId ∧
      Served catalog itemIds byRestaurant c.restaurantId c.itemId := by
  obtain ⟨⟨r, ps⟩, hg, hc⟩ := List.mem_flatMap.mp (List.mem_insertionSort _ |>.mp h)
  have hasked := get_grouped (Dict.mem_entries.mp hg)
  rcases hs : catalog.snapshot r (ps.map Prod.snd) with _ | s
  · rw [hs] at hc
    exact absurd hc List.not_mem_nil
  · rw [hs] at hc
    obtain ⟨item, hitem, rfl⟩ := List.mem_map.mp hc
    have hids := catalog.answers _ _ s hs item hitem
    rw [hasked] at hids hs
    obtain ⟨hmem, hr⟩ := List.mem_filter.mp hids
    exact ⟨hmem, of_decide_eq_true hr, s, hs, item, hitem, rfl⟩

/-- **The cards there are**: one for each dish that its restaurant answers for. -/
theorem exists_card_iff : (∃ c ∈ price catalog itemIds byRestaurant,
      c.restaurantId = r ∧ c.itemId = i) ↔
    i ∈ itemIds ∧ byRestaurant.get i = some r ∧ Served catalog itemIds byRestaurant r i := by
  constructor
  · rintro ⟨c, hc, rfl, rfl⟩
    exact of_mem_price hc
  · rintro ⟨hi, hr, s, hs, item, hitem, rfl⟩
    obtain ⟨ps, hps⟩ := exists_get_grouped hi hr
    refine ⟨card r s item, List.mem_insertionSort _ |>.mpr ?_, rfl, rfl⟩
    refine List.mem_flatMap.mpr ⟨(r, ps), Dict.mem_entries.mpr hps, ?_⟩
    have hsome : catalog.snapshot r (ps.map Prod.snd) = some s := by
      rw [get_grouped hps]
      exact hs
    rw [hsome]
    exact List.mem_map_of_mem hitem

/-! ### Cards in the city -/

/-- **Priced passages** keep their restaurants. -/
theorem offered_of_forItems {passages : List Passage}
    (hp : ∀ p ∈ passages, Offered index city p.restaurantId p.itemId)
    (h : c ∈ forItems catalog passages) : Offered index city c.restaurantId c.itemId := by
  obtain ⟨-, hget, -⟩ := of_mem_price h
  rw [Dict.get_mapValues] at hget
  obtain ⟨p, hfound, hr⟩ := Option.map_eq_some_iff.mp hget
  obtain ⟨hmem, hid⟩ := Dict.mem_of_get_index hfound
  rw [← hr, ← hid]
  exact hp p hmem

theorem get_restaurantsFor : (restaurantsFor index itemIds).get i = some r ↔
    ∃ row, (lastRows index itemIds).get i = some row ∧ row.restaurantId = r := by
  unfold restaurantsFor
  rw [Dict.get_mapValues, Option.map_eq_some_iff]

/-- The row that is found last is one of the dish. -/
theorem mem_of_get_lastRows {row : Row ItemFacts V} (h : (lastRows index itemIds).get i = some row) :
    row ∈ index.items ∧ row.facts.itemId = i ∧ i ∈ itemIds := by
  obtain ⟨hmem, rfl⟩ := Dict.mem_of_get_index h
  obtain ⟨hrow, hasked⟩ := List.mem_filter.mp hmem
  exact ⟨hrow, rfl, of_decide_eq_true hasked⟩

/-- **When a message's cards stay in the city**: if the restaurant of the row that is found last for
a dish is there, or does not answer for the dish. -/
theorem offered_price_iff :
    (∀ c ∈ price catalog itemIds (restaurantsFor index itemIds),
      Offered index city c.restaurantId c.itemId) ↔
    ∀ i row, (lastRows index itemIds).get i = some row → Located index city row.restaurantId ∨
      ¬ Served catalog itemIds (restaurantsFor index itemIds) row.restaurantId i := by
  constructor
  · intro hoffered i row hrow
    by_cases hserved : Served catalog itemIds (restaurantsFor index itemIds) row.restaurantId i
    · obtain ⟨c, hc, hr, rfl⟩ := exists_card_iff.mpr ⟨(mem_of_get_lastRows hrow).2.2,
        get_restaurantsFor.mpr ⟨row, hrow, rfl⟩, hserved⟩
      rw [← hr]
      exact .inl (hoffered c hc).located
    · exact .inr hserved
  · intro hcond c hc
    obtain ⟨-, hget, hserved⟩ := of_mem_price hc
    obtain ⟨row, hrow, hr⟩ := get_restaurantsFor.mp hget
    obtain ⟨hmem, hid, -⟩ := mem_of_get_lastRows hrow
    refine ⟨?_, row, hmem, hr, hid⟩
    rw [← hr]
    rcases hcond _ row hrow with hlocated | hnot
    · exact hlocated
    · rw [hr] at hnot
      exact absurd hserved hnot

end Assistant
