/-
The hybrid search: the assistant ranks dishes, and the catalog makes restaurants of them.

* `RetrieveIn`, `Retriever` — what the assistant is asked, and what it retrieves;
* `restaurantsOf`, `hydrate` — restaurants in the order of their first dishes;
* `HybridSearch` — the port, with the lexical path to fall back on;
* `Retriever.ranking` — the ranking that every answer is cut from;
* `Reaches` — the dishes that are asked for reach the restaurants of every page;
* `partitions_iff_reaches` — when the pages of one path are its ranking;
* `not_partitions_crowded` — twenty-one dishes of one restaurant hide the next one.
-/
import SmartFoodOps.Catalog.Search
import SmartFoodOps.Assistant.Retrieval

open Keyed Numbered

namespace Catalog.Search

variable {V : Type}

/-! ### The assistant's answer -/

structure SearchCandidate where
  restaurantId : String
  itemId : Option String
  score : ℚ
  deriving DecidableEq

structure Candidates where
  items : List SearchCandidate
  restaurants : List SearchCandidate

structure RetrieveIn where
  query : String
  city : String
  tags : List String
  cuisines : List String
  limit : ℕ
  openOnly : Bool

/-- No more may be asked for. -/
def maxDepth : ℕ := 50

/-- The request for a page that ends at `depth`. -/
def retrieveBody (q : Query) (city : String) (depth : ℕ) : RetrieveIn where
  query := q.text
  city
  tags := (q.tag.filter (· ≠ "")).toList
  cuisines := (q.cuisine.filter (· ≠ "")).toList
  limit := min depth maxDepth
  openOnly := false

/-- The index, and the rankings that a query makes of its rows. -/
structure Retriever (V : Type) where
  index : Assistant.Index V
  lexical : String → Assistant.Leg V
  vector : String → Assistant.Leg V

def RetrieveIn.filters (body : RetrieveIn) : Assistant.Filters where
  city := body.city
  tags := body.tags
  cuisines := body.cuisines
  openOnly := body.openOnly

/-- A candidate with the score that the legs give it. -/
def scored (legs : List (List Assistant.Candidate)) (c : Assistant.Candidate) : SearchCandidate :=
  ⟨c.restaurantId, some c.itemId, ((Assistant.fusedScores legs).get c.chunkId).getD 0⟩

/-- `PostgresRetriever.retrieve`: dishes only. -/
def Retriever.retrieve (x : Retriever V) (body : RetrieveIn) : Candidates where
  items :=
    let legs := [(x.lexical body.query).run x.index body.filters body.limit,
      (x.vector body.query).run x.index body.filters body.limit]
    (Assistant.fuse legs body.limit).map (scored legs)
  restaurants := []

/-! ### Restaurants of dishes -/

def evidenceOf (candidates : List SearchCandidate) : List (String × ℚ) :=
  candidates.map fun c => (c.restaurantId, c.score)

/-- The restaurants, in the order of their first candidates. -/
def restaurantsOf (candidates : List SearchCandidate) : List String :=
  (bestScores (evidenceOf candidates)).entries.map Prod.fst

/-- The restaurant's dishes, at their prices of now; one that is deleted is left out. -/
def matchedOf (shelf : Shelf) (items : List SearchCandidate) (restaurantId : String) :
    List MatchedItem :=
  (items.filter fun c => c.restaurantId = restaurantId).filterMap fun c =>
    ((c.itemId.filter (· ≠ "")).bind shelf.items.find).map fun row =>
      ⟨row.id, row.name, row.priceCents, c.score⟩

/-- `_hydrate`. -/
def hydrate (shelf : Shelf) (candidates : Candidates) (limit offset : ℕ) : List Hit :=
  let scores := bestScores (evidenceOf (candidates.items ++ candidates.restaurants))
  slice (scores.entries.map fun e => ⟨e.1, e.2, matchedOf shelf candidates.items e.1⟩) limit offset

/-! ### The port -/

/-- `SEARCH_PATH`: what has answered. -/
inductive SearchPath
  | lexical
  | hybrid
  deriving DecidableEq

structure HybridSearch (V : Type) (shelf : Shelf) where
  enabled : Bool
  retriever : Retriever V
  /-- Whether the assistant answers the request, well and in time. -/
  answers : RetrieveIn → Bool
  fallback : Legs shelf

variable {shelf : Shelf}

/-- `_retrieve`. -/
def HybridSearch.retrieve (s : HybridSearch V shelf) (q : Query) (city : String) (depth : ℕ) :
    Option Candidates :=
  let body := retrieveBody q city depth
  if s.answers body then some (s.retriever.retrieve body) else none

/-- `HybridSearch.search`, with the path that it has taken. -/
def HybridSearch.search (s : HybridSearch V shelf) (q : Query) (limit offset : ℕ) :
    SearchPath × List Hit :=
  match s.enabled, q.city with
  | false, _ | true, none => (.lexical, s.fallback.search q limit offset)
  | true, some city =>
    match s.retrieve q city (limit + offset) with
    | none => (.lexical, s.fallback.search q limit offset)
    | some candidates => (.hybrid, hydrate shelf candidates limit offset)

/-! ### The ranking -/

/-- A leg to its end. -/
def wholeLeg (leg : Assistant.Leg V) (index : Assistant.Index V) (filters : Assistant.Filters) :
    List Assistant.Candidate :=
  (leg.best (index.items.rows.filter fun row => filters.admits row.facts)).map fun row =>
    ⟨row.id, row.restaurantId, row.facts.itemId⟩

def Retriever.wholeLegs (x : Retriever V) (q : Query) : List (List Assistant.Candidate) :=
  let body := retrieveBody q (q.city.getD "") 0
  [wholeLeg (x.lexical body.query) x.index body.filters,
    wholeLeg (x.vector body.query) x.index body.filters]

/-- All that the legs find, fused. -/
def Retriever.allDishes (x : Retriever V) (q : Query) : List SearchCandidate :=
  (Assistant.fused (x.wholeLegs q)).map (scored (x.wholeLegs q))

def Retriever.ranking (x : Retriever V) (q : Query) : List String := restaurantsOf (x.allDishes q)

def HybridSearch.ranking (s : HybridSearch V shelf) (q : Query) : SearchPath → List String
  | .lexical => s.fallback.ranking q
  | .hybrid => s.retriever.ranking q

/-- How many dishes a page looks for. -/
def depthOf (page : ℕ) : ℕ := min (searchPageSize + 1 + page * searchPageSize) maxDepth

/-- The dishes for a page: both legs are cut at some places of each, and their fusion at as many
dishes as are looked for. -/
def Retriever.dishes (x : Retriever V) (q : Query) (page : ℕ) : List SearchCandidate :=
  let cut := (x.wholeLegs q).map (List.take (depthOf page * Assistant.legOverfetch))
  ((Assistant.fused cut).take (depthOf page)).map (scored cut)

/-- The cuts of the legs for the pages up to `n`, the third at most, reach the restaurants that the
whole legs rank. Each page before it finds as many dishes as it looks for, all of different
restaurants, and those in the page's places are of the restaurants in these places; what page `n`
finds is of no more restaurants than the pages hold, and from where it begins these are the rest of
the ranking. -/
structure Reaches (x : Retriever V) (q : Query) (n : ℕ) : Prop where
  within : n ≤ 2
  full : ∀ p < n, (x.dishes q p).length = (p + 1) * searchPageSize + 1
  different : ∀ p < n, ((x.dishes q p).map SearchCandidate.restaurantId).Nodup
  page : ∀ p < n, (slice (x.dishes q p) searchPageSize (p * searchPageSize)).map
    SearchCandidate.restaurantId = slice (x.ranking q) searchPageSize (p * searchPageSize)
  ends : (restaurantsOf (x.dishes q n)).length ≤ (n + 1) * searchPageSize
  last : (restaurantsOf (x.dishes q n)).drop (n * searchPageSize) =
    (x.ranking q).drop (n * searchPageSize)

/-! ### Restaurants in order -/

variable {x : Retriever V} {q : Query} {candidates : List SearchCandidate} {r : String}

theorem restaurantsOf_sublist :
    (restaurantsOf candidates).Sublist (candidates.map SearchCandidate.restaurantId) := by
  have hkeys : (restaurantsOf candidates).Sublist ((evidenceOf candidates).map Prod.fst) :=
    Dict.keys_gather_sublist
  have hids : (evidenceOf candidates).map Prod.fst =
      candidates.map SearchCandidate.restaurantId := List.map_map
  rwa [hids] at hkeys

theorem nodup_restaurantsOf : (restaurantsOf candidates).Nodup := Dict.distinct _

theorem mem_restaurantsOf : r ∈ restaurantsOf candidates ↔ ∃ c ∈ candidates, c.restaurantId = r := by
  refine Dict.mem_keys_gather.trans ?_
  unfold evidenceOf
  simp only [List.mem_map, exists_exists_and_eq_and]

theorem length_restaurantsOf_le : (restaurantsOf candidates).length ≤ candidates.length := by
  have hle := (@restaurantsOf_sublist candidates).length_le
  rwa [List.length_map] at hle

/-- There are as many restaurants as candidates if and only if these are of different ones. -/
theorem length_restaurantsOf_eq : (restaurantsOf candidates).length = candidates.length ↔
    (candidates.map SearchCandidate.restaurantId).Nodup := by
  constructor
  · intro h
    have heq := restaurantsOf_sublist.eq_of_length (h.trans (List.length_map _).symm)
    rw [← heq]
    exact nodup_restaurantsOf
  · intro h
    have hperm := (List.perm_ext_iff_of_nodup nodup_restaurantsOf h).mpr fun r => by
      rw [mem_restaurantsOf, List.mem_map]
    rw [hperm.length_eq, List.length_map]

theorem length_dishes {p : ℕ} : (x.dishes q p).length ≤ depthOf p := by
  unfold Retriever.dishes
  rw [List.length_map]
  exact List.length_take_le ..

theorem run_eq_take {leg : Assistant.Leg V} {index : Assistant.Index V}
    {filters : Assistant.Filters} {limit : ℕ} : leg.run index filters limit =
      (wholeLeg leg index filters).take (limit * Assistant.legOverfetch) := List.map_take

/-- **What is retrieved for a page** depends on the legs alone. -/
theorem items_retrieve {p : ℕ} : (x.retrieve (retrieveBody q (q.city.getD "")
    (searchPageSize + 1 + p * searchPageSize))).items = x.dishes q p := by
  unfold Retriever.retrieve
  rw [run_eq_take, run_eq_take]
  rfl

/-! ### The condition -/

theorem restaurantsOf_eq_map (h : (candidates.map SearchCandidate.restaurantId).Nodup) :
    restaurantsOf candidates = candidates.map SearchCandidate.restaurantId :=
  restaurantsOf_sublist.eq_of_length
    ((length_restaurantsOf_eq.mpr h).trans (List.length_map _).symm)

/-- A page turns if and only if the dishes for it are all there are to be, of different
restaurants. -/
theorem more_iff {p : ℕ} :
    (p + 1) * searchPageSize < (restaurantsOf (x.dishes q p)).length ↔
      (x.dishes q p).length = (p + 1) * searchPageSize + 1 ∧
        ((x.dishes q p).map SearchCandidate.restaurantId).Nodup := by
  have hle := @length_restaurantsOf_le (x.dishes q p)
  have hdepth := @length_dishes _ x q p
  unfold depthOf searchPageSize maxDepth at *
  rw [← length_restaurantsOf_eq]
  omega

theorem reaches_iff_covers {n : ℕ} : Reaches x q n ↔
    Covers searchPageSize (fun p => restaurantsOf (x.dishes q p)) (x.ranking q) 0 n := by
  have hslice : ∀ p, ((x.dishes q p).map SearchCandidate.restaurantId).Nodup →
      slice (restaurantsOf (x.dishes q p)) searchPageSize (p * searchPageSize) =
        (slice (x.dishes q p) searchPageSize (p * searchPageSize)).map
          SearchCandidate.restaurantId := by
    intro p hp
    unfold slice
    rw [restaurantsOf_eq_map hp, List.map_take, List.map_drop]
  constructor
  · intro h
    refine ⟨fun p _ hp => more_iff.mpr ⟨h.full p hp, h.different p hp⟩, fun p _ hp => ?_, h.ends,
      h.last⟩
    exact (hslice p (h.different p hp)).trans (h.page p hp)
  · intro h
    have hmore : ∀ p < n, _ := fun p hp => more_iff.mp (h.more p (Nat.zero_le p) hp)
    refine ⟨?_, fun p hp => (hmore p hp).1, fun p hp => (hmore p hp).2, fun p hp => ?_, h.ends,
      h.last⟩
    · -- the third page asks for no more dishes than the first two and a half hold
      by_contra hn
      have hfull := (hmore 2 (Nat.lt_of_not_le hn)).1
      have hdepth := @length_dishes _ x q 2
      unfold depthOf searchPageSize maxDepth at *
      omega
    · rw [← hslice p (hmore p hp).2]
      exact h.page p (Nat.zero_le p) hp

/-- A leg's candidates are rows of the index. -/
theorem row_of_mem_wholeLeg {leg : Assistant.Leg V} {index : Assistant.Index V}
    {filters : Assistant.Filters} {c : Assistant.Candidate} (h : c ∈ wholeLeg leg index filters) :
    ∃ row ∈ index.items, c = ⟨row.id, row.restaurantId, row.facts.itemId⟩ := by
  obtain ⟨row, hrow, rfl⟩ := List.mem_map.mp h
  exact ⟨row, (List.mem_filter.mp (leg.subset _ hrow)).1, rfl⟩

/-- **The ranking** has every restaurant that any depth finds. -/
theorem mem_ranking_of_dishes {p : ℕ} (h : r ∈ restaurantsOf (x.dishes q p)) :
    r ∈ x.ranking q := by
  obtain ⟨c, hc, rfl⟩ := mem_restaurantsOf.mp h
  obtain ⟨fused, hfused, rfl⟩ := List.mem_map.mp hc
  have hwhole : fused ∈ (x.wholeLegs q).flatten := by
    obtain ⟨leg, hleg, hmem⟩ := Assistant.mem_of_mem_fuse hfused
    obtain ⟨whole, hmemLeg, rfl⟩ := List.mem_map.mp hleg
    exact List.mem_flatten.mpr ⟨whole, hmemLeg, List.mem_of_mem_take hmem⟩
  have hrow : ∀ c ∈ (x.wholeLegs q).flatten, ∃ row ∈ x.index.items,
      c = ⟨row.id, row.restaurantId, row.facts.itemId⟩ := by
    intro c hc
    obtain ⟨leg, hleg, hmem⟩ := List.mem_flatten.mp hc
    rcases List.mem_cons.mp hleg with rfl | hleg
    · exact row_of_mem_wholeLeg hmem
    · obtain rfl := List.mem_singleton.mp hleg
      exact row_of_mem_wholeLeg hmem
  obtain ⟨c', hc', hid, hflat⟩ := Assistant.exists_mem_fused hwhole
  -- one chunk is one row, whichever leg has found it
  obtain ⟨row, hmem, hfusedRow⟩ := hrow fused hwhole
  obtain ⟨row', hmem', hcRow⟩ := hrow c' hflat
  have hsame : row' = row := Table.eq_of_key hmem' hmem (by rw [hfusedRow, hcRow] at hid; exact hid)
  have hcand : c' = fused := by rw [hcRow, hfusedRow, hsame]
  subst hcand
  exact mem_restaurantsOf.mpr ⟨_, List.mem_map.mpr ⟨c', hc', rfl⟩, rfl⟩

/-! ### Legs that are not cut -/

/-- A cut of the dishes has the first of the restaurants. -/
theorem restaurantsOf_take {d : ℕ} :
    restaurantsOf (candidates.take d) <+: restaurantsOf candidates := by
  have hsplit : evidenceOf candidates =
      evidenceOf (candidates.take d) ++ evidenceOf (candidates.drop d) := by
    unfold evidenceOf
    rw [← List.map_append, List.take_append_drop]
  unfold restaurantsOf
  rw [hsplit]
  exact Dict.keys_gather_append

/-- No leg finds more than the first page asks it for. -/
def Retriever.Short (x : Retriever V) (q : Query) : Prop :=
  ∀ leg ∈ x.wholeLegs q, leg.length ≤ (searchPageSize + 1) * Assistant.legOverfetch

/-- The dishes of a page are then the first of one ranking. -/
theorem dishes_eq_take (hshort : x.Short q) {p : ℕ} :
    x.dishes q p = (x.allDishes q).take (depthOf p) := by
  have hdepth : searchPageSize + 1 ≤ depthOf p := by
    unfold depthOf searchPageSize maxDepth
    omega
  have hcut : (x.wholeLegs q).map (List.take (depthOf p * Assistant.legOverfetch)) =
      x.wholeLegs q := by
    refine (List.map_congr_left fun leg hleg => ?_).trans (List.map_id _)
    exact List.take_of_length_le
      ((hshort leg hleg).trans (Nat.mul_le_mul_right Assistant.legOverfetch hdepth))
  unfold Retriever.dishes Retriever.allDishes
  rw [hcut, List.map_take]

theorem slice_of_begins {α : Type} {l l' : List α} {size offset : ℕ} (h : l <+: l')
    (hlen : offset + size ≤ l.length) : slice l size offset = slice l' size offset := by
  obtain ⟨m, rfl⟩ := h
  unfold slice
  rw [List.drop_append_of_le_length (by omega), List.take_append_of_le_length]
  rw [List.length_drop]
  omega

/-- **Where no leg is cut** the condition is on one ranking of dishes: those before the last page
turns are of different restaurants, and no restaurant has its first dish behind those that the last
page asks for. -/
theorem reaches_iff_of_short (hshort : x.Short q) {n : ℕ} : Reaches x q n ↔ n ≤ 2 ∧
    (0 < n → n * searchPageSize + 1 ≤ (x.allDishes q).length ∧
      (((x.allDishes q).take (n * searchPageSize + 1)).map SearchCandidate.restaurantId).Nodup) ∧
    (x.ranking q).length ≤ (n + 1) * searchPageSize ∧
    ∀ c ∈ x.allDishes q, ∃ c' ∈ (x.allDishes q).take (depthOf n),
      c'.restaurantId = c.restaurantId := by
  have hbegins : ∀ p, restaurantsOf (x.dishes q p) <+: x.ranking q := fun p =>
    dishes_eq_take hshort ▸ restaurantsOf_take
  have hdepth : ∀ p < n, n ≤ 2 → depthOf p = (p + 1) * searchPageSize + 1 := by
    intro p hp hn
    unfold depthOf searchPageSize maxDepth
    omega
  constructor
  · intro h
    have hreached : n * searchPageSize ≤ (restaurantsOf (x.dishes q n)).length := by
      rcases Nat.eq_zero_or_pos n with rfl | hn
      · rw [Nat.zero_mul]
        exact Nat.zero_le _
      · -- the dishes of the page before are among this page's, and of different restaurants
        obtain ⟨m, rfl⟩ := Nat.exists_eq_succ_of_ne_zero hn.ne'
        have hm := Nat.lt_succ_self m
        have hcut : x.dishes q m = (x.dishes q (m + 1)).take ((m + 1) * searchPageSize + 1) := by
          have hle : (m + 1) * searchPageSize + 1 ≤ depthOf (m + 1) := by
            have hwithin := h.within
            unfold depthOf searchPageSize maxDepth
            omega
          rw [dishes_eq_take hshort, dishes_eq_take hshort, hdepth m hm h.within, List.take_take,
            Nat.min_eq_left hle]
        have hlen := (@restaurantsOf_take (x.dishes q (m + 1))
          ((m + 1) * searchPageSize + 1)).length_le
        rw [← hcut, length_restaurantsOf_eq.mpr (h.different m hm), h.full m hm] at hlen
        exact Nat.le_of_succ_le hlen
    have hall : restaurantsOf (x.dishes q n) = x.ranking q := by
      obtain ⟨m, hm⟩ := hbegins n
      have hlast := h.last
      rw [← hm, List.drop_append_of_le_length hreached, List.self_eq_append_right] at hlast
      rw [← hm, hlast, List.append_nil]
    refine ⟨h.within, fun hn => ?_, hall ▸ h.ends, fun c hc => ?_⟩
    · obtain ⟨m, rfl⟩ := Nat.exists_eq_succ_of_ne_zero hn.ne'
      have hfull := h.full m (Nat.lt_succ_self m)
      have hdifferent := h.different m (Nat.lt_succ_self m)
      rw [dishes_eq_take hshort, hdepth m (Nat.lt_succ_self m) h.within] at hfull hdifferent
      rw [List.length_take] at hfull
      exact ⟨by rw [← hfull]; exact Nat.min_le_right _ _, hdifferent⟩
    · have hmem : c.restaurantId ∈ restaurantsOf (x.dishes q n) :=
        hall ▸ mem_restaurantsOf.mpr ⟨c, hc, rfl⟩
      obtain ⟨c', hc', heq⟩ := mem_restaurantsOf.mp hmem
      exact ⟨c', dishes_eq_take hshort ▸ hc', heq⟩
  · rintro ⟨hwithin, hturned, hlen, hcover⟩
    have hall : restaurantsOf (x.dishes q n) = x.ranking q := by
      obtain ⟨m, hm⟩ := hbegins n
      have hnodup : (x.ranking q).Nodup := nodup_restaurantsOf
      rcases m with _ | ⟨r, m⟩
      · rwa [List.append_nil] at hm
      · -- a restaurant that comes later would come twice
        rw [← hm] at hnodup
        have hr : r ∈ x.ranking q := hm ▸ List.mem_append_right _ List.mem_cons_self
        obtain ⟨c, hc, rfl⟩ := mem_restaurantsOf.mp hr
        obtain ⟨c', hc', heq⟩ := hcover c hc
        have hearly : c.restaurantId ∈ restaurantsOf (x.dishes q n) :=
          mem_restaurantsOf.mpr ⟨c', by rw [dishes_eq_take hshort]; exact hc', heq⟩
        exact absurd rfl ((List.nodup_append.mp hnodup).2.2 _ hearly _ List.mem_cons_self)
    have hfull : ∀ p < n, (x.dishes q p).length = (p + 1) * searchPageSize + 1 := by
      intro p hp
      have hlong := (hturned (Nat.zero_lt_of_lt hp)).1
      have hle : (p + 1) * searchPageSize ≤ n * searchPageSize := Nat.mul_le_mul_right _ hp
      rw [dishes_eq_take hshort, hdepth p hp hwithin, List.length_take]
      omega
    have hdifferent : ∀ p < n, ((x.dishes q p).map SearchCandidate.restaurantId).Nodup := by
      intro p hp
      have hle : (p + 1) * searchPageSize ≤ n * searchPageSize := Nat.mul_le_mul_right _ hp
      rw [dishes_eq_take hshort, hdepth p hp hwithin]
      exact (hturned (Nat.zero_lt_of_lt hp)).2.sublist
        ((List.take_sublist_take_left (Nat.succ_le_succ hle)).map _)
    refine ⟨hwithin, hfull, hdifferent, fun p hp => ?_, hall ▸ hlen, by rw [hall]⟩
    have hlength : (restaurantsOf (x.dishes q p)).length = (p + 1) * searchPageSize + 1 :=
      (length_restaurantsOf_eq.mpr (hdifferent p hp)).trans (hfull p hp)
    have hpage := @slice_of_begins _ _ _ searchPageSize (p * searchPageSize) (hbegins p)
      (by rw [hlength, Nat.succ_mul]; exact Nat.le_succ _)
    rw [← hpage, restaurantsOf_eq_map (hdifferent p hp)]
    unfold slice
    rw [List.map_take, List.map_drop]

/-! ### One path for every page -/

variable {s : HybridSearch V shelf} {limit offset : ℕ} {path : SearchPath}

theorem search_lexical (h : (s.search q limit offset).1 = .lexical) :
    (s.search q limit offset).2 = s.fallback.search q limit offset := by
  unfold HybridSearch.search at h ⊢
  split at h
  · rfl
  · rfl
  · split at h
    · rfl
    · cases h

theorem search_hybrid (h : (s.search q limit offset).1 = .hybrid) :
    (s.search q limit offset).2 = hydrate shelf
      (s.retriever.retrieve (retrieveBody q (q.city.getD "") (limit + offset))) limit offset := by
  unfold HybridSearch.search at h ⊢
  split at h
  · cases h
  · cases h
  · next city hcity =>
    split at h
    · cases h
    · next candidates hsome =>
      unfold HybridSearch.retrieve at hsome
      simp only [hcity, Option.getD_some] at hsome ⊢
      split at hsome
      · rw [Option.some.inj hsome]
      · cases hsome

theorem map_hydrate {items : List SearchCandidate} :
    (hydrate shelf ⟨items, []⟩ limit offset).map Hit.restaurantId =
      slice (restaurantsOf items) limit offset := by
  unfold hydrate slice restaurantsOf
  simp only [List.append_nil]
  rw [List.map_take, List.map_drop, List.map_map]
  rfl

/-- **Search pages** that one path answers are its ranking: always on the lexical path; on the
hybrid path if and only if the restaurants that are ranked have rows, and the dishes that are asked
for reach them. -/
theorem partitions_iff_reaches
    (hpath : ∀ page, (s.search q (searchPageSize + 1) (page * searchPageSize)).1 = path) :
    Partitions (searchPage shelf fun limit offset => (s.search q limit offset).2)
        (s.ranking q path) ↔
      (path = .hybrid → (∀ r ∈ s.retriever.ranking q, shelf.has r = true) ∧
        ∃ n, Reaches s.retriever q n) := by
  cases path with
  | lexical =>
    have hpages : searchPage shelf (fun limit offset => (s.search q limit offset).2) =
        searchPage shelf (s.fallback.search q) := by
      funext page
      unfold searchPage
      simp only [search_lexical (hpath page)]
    rw [hpages]
    exact iff_of_true partitions_lexical fun h => nomatch h
  | hybrid =>
    have hport : ∀ page, ((s.search q (searchPageSize + 1) (page * searchPageSize)).2).map
        Hit.restaurantId = slice (restaurantsOf (s.retriever.dishes q page)) (searchPageSize + 1)
          (page * searchPageSize) := by
      intro page
      rw [search_hybrid (hpath page), ← items_retrieve]
      exact map_hydrate
    refine (partitions_iff hport nodup_restaurantsOf fun page r => mem_ranking_of_dishes).trans ?_
    constructor
    · rintro ⟨hhas, n, hcovers⟩ -
      exact ⟨hhas, n, reaches_iff_covers.mpr hcovers⟩
    · intro h
      obtain ⟨hhas, n, hreaches⟩ := h rfl
      exact ⟨hhas, n, reaches_iff_covers.mp hreaches⟩

/-! ### A dish of many restaurants, and many dishes of one -/

/-- A dish of a restaurant. -/
def dalRow (restaurantId itemId : String) : Assistant.Row Assistant.ItemFacts Unit where
  id := Assistant.chunkId restaurantId itemId
  restaurantId
  content := "Dal"
  facts :=
    { itemId, city := "oslo", brandId := none, cuisines := [], category := "Mains", tags := [],
      name := "Dal", priceCents := 900, available := true, status := "open" }
  embedding := ()

def dal : Query := { text := "dal", city := some "oslo" }

/-- Two legs that rank the rows of an index, with nothing to fall back on. -/
def searchOf (shelf : Shelf) (index : Assistant.Index Unit) (lexical vector : Assistant.Leg Unit) :
    HybridSearch Unit shelf where
  enabled := true
  retriever := ⟨index, fun _ => lexical, fun _ => vector⟩
  answers _ := true
  fallback :=
    { restaurants := fun _ => [], cuisines := fun _ => [], items := fun _ => [], tags := fun _ => []
      restaurants_join := fun _ _ h => absurd h List.not_mem_nil
      items_join := fun _ _ h => absurd h List.not_mem_nil }

/-- Nothing, and all in the order of the rows. -/
def noRows : Assistant.Leg Unit := ⟨fun _ => [], fun _ => List.nil_subset _⟩

def allRows : Assistant.Leg Unit := ⟨fun rows => rows, fun _ => List.Subset.refl _⟩

/-- Twenty-two restaurants. -/
def avenue : List String := "abcdefghijklmnopqrstuv".toList.map String.singleton

def avenueRows : List (Assistant.Row Assistant.ItemFacts Unit) :=
  avenue.map fun r => dalRow r "dal"

def avenueShelf : Shelf where
  branches := ⟨avenue.map fun r => ⟨r, "Dal House", none, none, "oslo", "open"⟩, by decide +kernel⟩
  cuisines _ := []
  items := .empty

def avenueSearch : HybridSearch Unit avenueShelf :=
  searchOf avenueShelf ⟨.empty, ⟨avenueRows, by decide +kernel⟩⟩ noRows allRows

/-- **Two pages**: the first asks for twenty-one dishes, all of different restaurants. -/
theorem partitions_avenue :
    avenueSearch.ranking dal .hybrid = avenue ∧
      Partitions (searchPage avenueShelf fun limit offset => (avenueSearch.search dal limit offset).2)
        (avenueSearch.ranking dal .hybrid) := by
  have hranking : avenueSearch.ranking dal .hybrid = avenue := by decide +kernel
  have hshort : avenueSearch.retriever.Short dal := by
    unfold Retriever.Short
    decide +kernel
  refine ⟨hranking, Iff.mpr (partitions_iff_reaches fun _ => rfl) fun _ => ⟨?_, 1, ?_⟩⟩
  · decide +kernel
  · refine (reaches_iff_of_short hshort).mpr ⟨by decide, fun _ => ?_, by decide +kernel, ?_⟩
    · decide +kernel
    · decide +kernel

/-- Twenty-one dishes of one restaurant, and one of another. -/
def crowdedRows : List (Assistant.Row Assistant.ItemFacts Unit) :=
  ("abcdefghijklmnopqrstu".toList.map fun c => dalRow "r1" (String.singleton c)) ++
    [dalRow "r2" "v"]

def crowdedShelf : Shelf where
  branches := ⟨[⟨"r1", "Dal House", none, none, "oslo", "open"⟩,
    ⟨"r2", "Curry House", none, none, "oslo", "open"⟩], by decide +kernel⟩
  cuisines _ := []
  items := .empty

/-- The nearest dishes are those of the one restaurant, and no word matches. -/
def crowded : HybridSearch Unit crowdedShelf :=
  searchOf crowdedShelf ⟨.empty, ⟨crowdedRows, by decide +kernel⟩⟩ noRows allRows

theorem hybrid_crowded (page : ℕ) :
    (crowded.search dal (searchPageSize + 1) (page * searchPageSize)).1 = .hybrid := rfl

/-- **The next restaurant is hidden**: the first page asks for twenty-one dishes, all of one
restaurant, and there seem to be no more. -/
theorem not_partitions_crowded :
    (∀ page, (crowded.search dal (searchPageSize + 1) (page * searchPageSize)).1 = .hybrid) ∧
      crowded.ranking dal .hybrid = ["r1", "r2"] ∧
      ¬ Partitions (searchPage crowdedShelf fun limit offset => (crowded.search dal limit offset).2)
        (crowded.ranking dal .hybrid) := by
  have hranking : crowded.ranking dal .hybrid = ["r1", "r2"] := by decide +kernel
  have hmore : (searchPage crowdedShelf (fun limit offset => (crowded.search dal limit offset).2)
      0).hasMore = false := by decide +kernel
  have hids : (searchPage crowdedShelf (fun limit offset => (crowded.search dal limit offset).2)
      0).items.map SearchResult.id = ["r1"] := by decide +kernel
  refine ⟨hybrid_crowded, hranking, ?_⟩
  rintro ⟨-, results, hwalk, heq⟩
  rw [hwalk.unique (.last hmore), hids, hranking] at heq
  exact absurd heq (by decide)

end Catalog.Search
