/-
The search of the catalog, and its lexical path.

* `Hit`, `Query` — what a search port answers, and what it is asked;
* `Legs`, `merge` — the four ranked legs, collapsed into restaurants;
* `Shelf`, `searchPage` — the rows that a page is made of, and `CatalogService.search`;
* `Partitions` — the pages, read until there are no more, are one ranking;
* `partitions_iff` — that is so if every ranked restaurant has a row and the ranks are those;
* `partitions_lexical` — the lexical path.
-/
import SmartFoodOps.Lib.Dict
import SmartFoodOps.Lib.Numbered
import Mathlib.Data.Rat.Defs
import Mathlib.Algebra.Order.Ring.Rat
import Mathlib.Data.String.Basic

open Keyed Numbered

namespace Catalog.Search

/-! ### The port -/

structure MatchedItem where
  id : String
  name : String
  priceCents : ℤ
  score : ℚ
  deriving DecidableEq

structure Hit where
  restaurantId : String
  score : ℚ
  matchedItems : List MatchedItem
  deriving DecidableEq

structure Query where
  text : String
  city : Option String := none
  cuisine : Option String := none
  tag : Option String := none

/-! ### Rows -/

/-- A row of `get_restaurants_by_ids`. -/
structure BranchRow where
  id : String
  name : String
  brandId : Option String
  branchLabel : Option String
  city : String
  status : String
  deriving DecidableEq

/-- A row of `get_items_for_search`. -/
structure PricedRow where
  id : String
  name : String
  priceCents : ℤ
  deriving DecidableEq

/-- What a search reads of the catalog. -/
structure Shelf where
  branches : Table BranchRow String BranchRow.id
  cuisines : String → List String
  items : Table PricedRow String PricedRow.id

/-- The restaurants that have a row. -/
def Shelf.has (shelf : Shelf) (restaurantId : String) : Bool :=
  (shelf.branches.find restaurantId).isSome

/-! ### The lexical path -/

structure RestaurantRow where
  restaurantId : String
  score : Option ℚ

structure ItemRow where
  restaurantId : String
  id : String
  name : String
  priceCents : ℤ
  score : Option ℚ

/-- What the four queries answer, of a catalog that does not change. All of them join the rows that
a page is made of. -/
structure Legs (shelf : Shelf) where
  restaurants : Query → List RestaurantRow
  cuisines : Query → List RestaurantRow
  items : Query → List ItemRow
  tags : Query → List ItemRow
  restaurants_join : ∀ q, ∀ row ∈ restaurants q ++ cuisines q, shelf.has row.restaurantId = true
  items_join : ∀ q, ∀ row ∈ items q ++ tags q, shelf.has row.restaurantId = true

/-- A restaurant's score is that of its best evidence. -/
def bestScores (evidence : List (String × ℚ)) : Dict String ℚ :=
  .gather Prod.fst (fun e best => max (best.getD 0) e.2) evidence

/-- Items are found by several legs, and keep their best score. -/
def bestItems (rows : List ItemRow) : Dict String (Dict String MatchedItem) :=
  .gather ItemRow.restaurantId (fun row found => (found.getD .empty).alter row.id fun best =>
    let item : MatchedItem := ⟨row.id, row.name, row.priceCents, row.score.getD 0⟩
    best.elim item fun old => if old.score < item.score then item else old) rows

/-- The restaurants with their scores, best first, those of one score by identifier. -/
def ranked (restaurantHits : List RestaurantRow) (itemHits : List ItemRow) : List (String × ℚ) :=
  (bestScores ((restaurantHits.map fun row => (row.restaurantId, row.score.getD 0)) ++
    itemHits.map fun row => (row.restaurantId, row.score.getD 0))).entries.insertionSort
    fun a b => b.2 < a.2 ∨ a.2 = b.2 ∧ a.1 ≤ b.1

def merge (restaurantHits : List RestaurantRow) (itemHits : List ItemRow) (limit offset : ℕ) :
    List Hit :=
  (slice (ranked restaurantHits itemHits) limit offset).map fun e =>
    ⟨e.1, e.2, (((bestItems itemHits).get e.1).elim [] Dict.values).insertionSort
      fun a b => b.score < a.score ∨ a.score = b.score ∧ a.id ≤ b.id⟩

/-- `PostgresSearch.search`. -/
def Legs.search {shelf : Shelf} (legs : Legs shelf) (q : Query) (limit offset : ℕ) : List Hit :=
  merge (legs.restaurants q ++ legs.cuisines q) (legs.items q ++ legs.tags q) limit offset

/-- The ranking of the lexical path. -/
def Legs.ranking {shelf : Shelf} (legs : Legs shelf) (q : Query) : List String :=
  (ranked (legs.restaurants q ++ legs.cuisines q) (legs.items q ++ legs.tags q)).map Prod.fst

/-! ### A page -/

structure SearchResult where
  id : String
  name : String
  brandId : Option String
  branchLabel : Option String
  displayName : String
  city : String
  cuisines : List String
  status : String
  score : ℚ
  matchedItems : List MatchedItem

/-- A hit whose restaurant has vanished is dropped. -/
def resultOf (shelf : Shelf) (hit : Hit) : Option SearchResult :=
  (shelf.branches.find hit.restaurantId).map fun row =>
    { id := row.id, name := row.name, brandId := row.brandId, branchLabel := row.branchLabel
      displayName := (row.branchLabel.filter (· ≠ "")).elim row.name fun label =>
        row.name ++ " — " ++ label
      city := row.city, cuisines := shelf.cuisines row.id, status := row.status
      score := hit.score, matchedItems := hit.matchedItems }

/-- `SEARCH_PAGE_SIZE`. -/
def searchPageSize : ℕ := 20

/-- `CatalogService.search`, with the port's answer to the query. -/
def searchPage (shelf : Shelf) (port : ℕ → ℕ → List Hit) (page : ℕ) : Page SearchResult :=
  let hits := port (searchPageSize + 1) (page * searchPageSize)
  ⟨(hits.take searchPageSize).filterMap (resultOf shelf), searchPageSize < hits.length⟩

/-! ### Pages that are one ranking -/

/-- Page after page, until there are no more, every restaurant of the ranking is read once, in the
order of the ranking. -/
def Partitions (pages : ℕ → Page SearchResult) (ranking : List String) : Prop :=
  ranking.Nodup ∧ ∃ results, Walk pages 0 results ∧ results.map SearchResult.id = ranking

variable {shelf : Shelf} {port : ℕ → ℕ → List Hit} {ranking : List String} {q : Query}
  {legs : Legs shelf}

theorem id_of_resultOf {hit : Hit} {result : SearchResult} (h : resultOf shelf hit = some result) :
    result.id = hit.restaurantId := by
  obtain ⟨row, hrow, rfl⟩ := Option.map_eq_some_iff.mp h
  exact (Table.find_eq_some.mp hrow).2

theorem map_id_filterMap {hits : List Hit} :
    (hits.filterMap (resultOf shelf)).map SearchResult.id =
      (hits.map Hit.restaurantId).filter shelf.has := by
  induction hits with
  | nil => rfl
  | cons hit hits ih =>
    rw [List.map_cons]
    cases hresult : resultOf shelf hit with
    | none =>
      have hnone : shelf.has hit.restaurantId = false := by
        unfold Shelf.has
        rw [Option.map_eq_none_iff.mp hresult]
        rfl
      rw [List.filterMap_cons_none hresult, List.filter_cons_of_neg (by rw [hnone]; simp), ih]
    | some result =>
      have hsome : shelf.has hit.restaurantId = true := by
        obtain ⟨row, hrow, -⟩ := Option.map_eq_some_iff.mp hresult
        unfold Shelf.has
        rw [hrow]
        rfl
      rw [List.filterMap_cons_some hresult, List.filter_cons_of_pos hsome, List.map_cons,
        id_of_resultOf hresult, ih]

/-- The restaurants of the hits, of all hits. -/
def idPage (port : ℕ → ℕ → List Hit) (page : ℕ) : Page String :=
  .ofHits searchPageSize
    ((port (searchPageSize + 1) (page * searchPageSize)).map Hit.restaurantId)

/-- What a walk reads are the restaurants of the hits, less those that have no row. -/
theorem exists_walk_iff : (∃ results, Walk (searchPage shelf port) 0 results ∧
      results.map SearchResult.id = ranking) ↔
    ∃ ids, Walk (idPage port) 0 ids ∧ ids.filter shelf.has = ranking := by
  have hresults := fun read => @walk_image_iff _ _ (searchPage shelf port) 0
    (List.map SearchResult.id) (fun _ _ => List.map_append) read
  have hids := fun read => @walk_image_iff _ _ (idPage port) 0 (List.filter shelf.has)
    (fun _ _ => List.filter_append ..) read
  have hpages : (fun p => (⟨(searchPage shelf port p).items.map SearchResult.id,
      (searchPage shelf port p).hasMore⟩ : Page String)) =
        fun p => ⟨(idPage port p).items.filter shelf.has, (idPage port p).hasMore⟩ := by
    funext p
    unfold searchPage idPage Page.ofHits
    simp only [map_id_filterMap, List.map_take, List.length_map]
  rw [hpages] at hresults
  constructor
  · rintro ⟨results, hwalk, rfl⟩
    obtain ⟨ids, hwalk', heq⟩ := (hids _).mp ((hresults _).mpr ⟨results, hwalk, rfl⟩)
    exact ⟨ids, hwalk', heq.symm⟩
  · rintro ⟨ids, hwalk, rfl⟩
    obtain ⟨results, hwalk', heq⟩ := (hresults _).mp ((hids _).mpr ⟨ids, hwalk, rfl⟩)
    exact ⟨results, hwalk', heq.symm⟩

/-- **The walk is the ranking** if and only if all its restaurants have rows, and what each page
slices agrees with it. -/
theorem partitions_iff {lists : ℕ → List String}
    (hport : ∀ p, (port (searchPageSize + 1) (p * searchPageSize)).map Hit.restaurantId =
      slice (lists p) (searchPageSize + 1) (p * searchPageSize))
    (hnodup : ranking.Nodup) (hsub : ∀ p, ∀ r ∈ lists p, r ∈ ranking) :
    Partitions (searchPage shelf port) ranking ↔
      (∀ r ∈ ranking, shelf.has r = true) ∧ ∃ n, Covers searchPageSize lists ranking 0 n := by
  have hpages : idPage port = fun p => fetched searchPageSize (lists p) p := by
    funext p
    unfold idPage fetched
    rw [hport]
  have hslices := @walk_slices_iff _ 0 searchPageSize ranking lists
  rw [Nat.zero_mul, List.drop_zero, ← hpages] at hslices
  unfold Partitions
  rw [and_iff_right hnodup, exists_walk_iff]
  constructor
  · rintro ⟨ids, hwalk, hfilter⟩
    have hhas : ∀ r ∈ ranking, shelf.has r = true := by
      intro r hr
      rw [← hfilter] at hr
      exact (List.mem_filter.mp hr).2
    -- nothing is dropped: what a page lists is in the ranking, and has a row
    have hall : ids.filter shelf.has = ids := by
      refine List.filter_eq_self.mpr fun r hr => ?_
      obtain ⟨p, hp⟩ := hwalk.mem hr
      rw [hpages, items_fetched] at hp
      exact hhas r (hsub p r (List.mem_of_mem_drop (List.mem_of_mem_take hp)))
    rw [hall] at hfilter
    subst hfilter
    obtain ⟨n, -, hcovers⟩ := hslices.mp hwalk
    exact ⟨hhas, n, hcovers⟩
  · rintro ⟨hhas, n, hcovers⟩
    exact ⟨ranking, hslices.mpr ⟨n, Nat.zero_le n, hcovers⟩, List.filter_eq_self.mpr hhas⟩

theorem nodup_ranking : (legs.ranking q).Nodup :=
  ((List.perm_insertionSort _ _).map Prod.fst).nodup_iff.mpr (Dict.distinct _)

theorem has_of_mem_ranking {r : String} (h : r ∈ legs.ranking q) : shelf.has r = true := by
  have hkeys := ((List.perm_insertionSort _ _).map Prod.fst).mem_iff.mp h
  obtain ⟨e, he, rfl⟩ := Dict.mem_keys_gather.mp hkeys
  rcases List.mem_append.mp he with he | he
  · obtain ⟨row, hrow, rfl⟩ := List.mem_map.mp he
    exact legs.restaurants_join q row hrow
  · obtain ⟨row, hrow, rfl⟩ := List.mem_map.mp he
    exact legs.items_join q row hrow

/-- **The lexical path** reads its ranking. -/
theorem partitions_lexical : Partitions (searchPage shelf (legs.search q)) (legs.ranking q) := by
  have hport : ∀ p, (legs.search q (searchPageSize + 1) (p * searchPageSize)).map
      Hit.restaurantId = slice (legs.ranking q) (searchPageSize + 1) (p * searchPageSize) := by
    intro p
    unfold Legs.search merge Legs.ranking slice
    rw [List.map_map, List.map_take, List.map_drop]
    rfl
  have hpages : idPage (legs.search q) = fun p => fetched searchPageSize (legs.ranking q) p := by
    funext p
    unfold idPage fetched
    rw [hport]
  refine ⟨nodup_ranking, exists_walk_iff.mpr ⟨legs.ranking q, ?_, ?_⟩⟩
  · rw [hpages]
    exact walk_slice (Nat.succ_pos 19)
  · exact List.filter_eq_self.mpr fun _ => has_of_mem_ranking

end Catalog.Search
