/-
The cards of passages, where the branches of a brand share their dishes.

* `Menu`, `menus` — what a restaurant sells, and the catalog that answers from such menus;
* `ownCard` — the card of a dish at a restaurant of its own;
* `forItems_perm` — `for_items` looks each passage's dish up where the last passage has it;
* `Kept` — one card for each passage's restaurant and dish, in the order of the passages;
* `kept_iff` — so it is if no other passage has the dish of one that can be priced, and if no such
  restaurant is asked for too many dishes;
* `lost_of_branches` — two branches of a brand: one is priced twice, and the other not at all.
-/
import SmartFoodOps.Assistant.Recommend

namespace Assistant

/-! ### Menus -/

/-- What the catalog knows of a restaurant. -/
structure Menu where
  name : String
  displayName : Option String := none
  status : Option String
  openNow : Option Bool
  dishes : Keyed.Table Dish String Dish.id

/-- The most dishes that one request may ask for. -/
def snapshotMax : ℕ := 50

/-- `pricing_read`: the dishes that were found, as they were asked for. -/
def Menu.snapshot (m : Menu) (itemIds : List String) : Snapshot where
  name := m.name
  displayName := m.displayName
  status := m.status
  openNow := m.openNow
  items := itemIds.filterMap m.dishes.find

/-- The catalog, of its restaurants' menus. -/
def menus (menuOf : String → Option Menu) : Catalog where
  snapshot r itemIds :=
    if 1 ≤ itemIds.length ∧ itemIds.length ≤ snapshotMax then
      (menuOf r).map fun m => m.snapshot itemIds
    else none
  answers := by
    intro r itemIds s hs item hitem
    rw [Option.mem_def] at hs
    split at hs
    · obtain ⟨m, -, rfl⟩ := Option.map_eq_some_iff.mp hs
      obtain ⟨i, hi, hfind⟩ := List.mem_filterMap.mp hitem
      rw [(Keyed.Table.find_eq_some.mp hfind).2]
      exact hi
    · cases hs

/-- The card of a dish, from the menu of the restaurant itself. -/
def ownCard (menuOf : String → Option Menu) (r i : String) : Option Card :=
  (menuOf r).bind fun m => (m.dishes.find i).map (card r (m.snapshot []))

/-! ### Where a dish is looked up -/

/-- The restaurant of the last passage with the dish. -/
def lastRestaurant (passages : List Passage) (i : String) : Option String :=
  ((Dict.index Passage.itemId passages).get i).map Passage.restaurantId

/-- How many dishes a restaurant is asked for. -/
def asked (passages : List Passage) (r : String) : ℕ :=
  passages.countP fun q => lastRestaurant passages q.itemId = some r

/-- What is made of one dish. -/
def lookedUp (menuOf : String → Option Menu) (passages : List Passage) (i : String) : Option Card :=
  (lastRestaurant passages i).bind fun r =>
    if asked passages r ≤ snapshotMax then ownCard menuOf r i else none

variable {menuOf : String → Option Menu} {passages : List Passage} {p q : Passage} {r i : String}
  {c : Card}

theorem exists_lastRestaurant (hp : p ∈ passages) :
    ∃ q ∈ passages, q.itemId = p.itemId ∧
      lastRestaurant passages p.itemId = some q.restaurantId := by
  obtain ⟨q, hq⟩ := @Dict.get_gather_of_mem _ _ _ _ Passage.itemId (fun x _ => x) _ _ hp
  obtain ⟨hmem, hid⟩ := Dict.mem_of_get_index hq
  refine ⟨q, hmem, hid, ?_⟩
  unfold lastRestaurant
  rw [show (Dict.index Passage.itemId passages).get p.itemId = some q from hq, Option.map_some]

theorem key_of_ownCard (h : ownCard menuOf r i = some c) : c.restaurantId = r ∧ c.itemId = i := by
  obtain ⟨m, -, hdish⟩ := Option.bind_eq_some_iff.mp h
  obtain ⟨d, hfind, rfl⟩ := Option.map_eq_some_iff.mp hdish
  exact ⟨rfl, (Keyed.Table.find_eq_some.mp hfind).2⟩

/-! ### One request for each restaurant -/

section

variable {ps : List (String × String)} {byRestaurant : Dict String String}

/-- The answer to one request, dish by dish. -/
theorem cards_of_snapshot (h : 1 ≤ ps.length) (hr : ∀ x ∈ ps, x.1 = r) :
    (((menus menuOf).snapshot r (ps.map Prod.snd)).map (cards r)).getD [] =
      ps.filterMap fun x => if ps.length ≤ snapshotMax then ownCard menuOf x.1 x.2 else none := by
  unfold menus
  dsimp only
  rw [List.length_map]
  by_cases hmax : ps.length ≤ snapshotMax
  · rw [if_pos ⟨h, hmax⟩]
    simp only [if_pos hmax]
    rcases hm : menuOf r with _ | m
    · refine (List.filterMap_eq_nil_iff.mpr fun x hx => ?_).symm
      rw [hr x hx, ownCard, hm, Option.bind_none]
    · simp only [Option.map_some, Option.getD_some, cards, Menu.snapshot, List.filterMap_map,
        List.map_filterMap]
      refine List.filterMap_congr fun x hx => ?_
      rw [hr x hx, ownCard, hm]
      rfl
  · rw [if_neg fun h => hmax h.2]
    simp only [if_neg hmax]
    exact (List.filterMap_eq_nil_iff.mpr fun _ _ => rfl).symm

theorem length_of_get_grouped (h : (grouped (passages.map Passage.itemId)
      ((Dict.index Passage.itemId passages).mapValues Passage.restaurantId)).get r = some ps) :
    ps.length = asked passages r := by
  have hlen := congrArg List.length (get_grouped h)
  rw [List.length_map, ← List.countP_eq_length_filter, List.countP_map] at hlen
  rw [hlen]
  refine List.countP_congr fun q _ => ?_
  rw [Function.comp_apply, Dict.get_mapValues]
  exact Iff.rfl

/-- **Each dish is looked up where the last passage has it.** -/
theorem forItems_perm : (forItems (menus menuOf) passages).Perm
    (passages.filterMap fun p => lookedUp menuOf passages p.itemId) := by
  unfold forItems price
  dsimp only
  refine (List.perm_insertionSort _ _).trans ?_
  have hentries : ∀ g ∈ (grouped (passages.map Passage.itemId)
      ((Dict.index Passage.itemId passages).mapValues Passage.restaurantId)).entries,
      (((menus menuOf).snapshot g.1 (g.2.map Prod.snd)).map (cards g.1)).getD [] =
        g.2.filterMap fun x => if asked passages x.1 ≤ snapshotMax then
          ownCard menuOf x.1 x.2 else none := by
    rintro ⟨r, ps⟩ hg
    have hget := Dict.mem_entries.mp hg
    have hps := Dict.eq_of_get_groupBy hget
    have hfst : ∀ x ∈ ps, x.1 = r := by
      intro x hx
      rw [hps] at hx
      exact of_decide_eq_true (List.mem_filter.mp hx).2
    have hne : 1 ≤ ps.length := by
      obtain ⟨x, hx, hk⟩ := Dict.exists_of_get_gather hget
      refine List.length_pos_of_mem (a := x) ?_
      rw [hps]
      exact List.mem_filter.mpr ⟨hx, decide_eq_true hk⟩
    rw [cards_of_snapshot hne hfst]
    refine List.filterMap_congr fun x hx => ?_
    rw [length_of_get_grouped hget, hfst x hx]
  rw [List.flatMap_congr hentries, ← List.filterMap_flatMap, List.flatMap_def]
  refine (Dict.groupBy_perm.filterMap _).trans ?_
  rw [List.filterMap_filterMap, List.filterMap_map]
  refine List.Perm.of_eq (List.filterMap_congr fun p _ => ?_)
  rw [Function.comp_apply, Dict.get_mapValues, Option.bind_map]
  rfl

end

/-! ### One card for each branch -/

/-- One card for each restaurant and dish of the passages that the restaurant itself sells, with
what it says of the dish, in the order of the passages. -/
structure Kept (menuOf : String → Option Menu) (passages : List Passage) (result : List Card) :
    Prop where
  own : ∀ c ∈ result, ownCard menuOf c.restaurantId c.itemId = some c
  mem : ∀ key, key ∈ result.map Card.key ↔
    key ∈ passages.map Passage.key ∧ (ownCard menuOf key.1 key.2).isSome
  nodup : (result.map Card.key).Nodup
  order : (result.map Card.key).Sublist (passages.map Passage.key)

/-- A dish that can be priced is in one passage, and its restaurant is not asked for too many. -/
def Unshared (menuOf : String → Option Menu) (passages : List Passage) : Prop :=
  ∀ p ∈ passages, (ownCard menuOf p.restaurantId p.itemId).isSome →
    passages.countP (fun q => q.itemId = p.itemId) = 1 ∧
      asked passages p.restaurantId ≤ snapshotMax

theorem eq_of_countP_eq_one {α : Type} {l : List α} {f : α → Bool} {x y : α}
    (h : l.countP f = 1) (hx : x ∈ l) (hfx : f x = true) (hy : y ∈ l) (hfy : f y = true) :
    x = y := by
  rw [List.countP_eq_length_filter] at h
  obtain ⟨z, hz⟩ := List.length_eq_one_iff.mp h
  have hmem : ∀ w ∈ l, f w = true → w = z := fun w hw hfw =>
    List.mem_singleton.mp (hz ▸ List.mem_filter.mpr ⟨hw, hfw⟩)
  rw [hmem x hx hfx, hmem y hy hfy]

/-- Then a dish is looked up at the restaurant of its passage. -/
theorem lookedUp_eq_ownCard (h : Unshared menuOf passages) (hp : p ∈ passages) :
    lookedUp menuOf passages p.itemId = ownCard menuOf p.restaurantId p.itemId := by
  obtain ⟨q, hq, hid, hlast⟩ := exists_lastRestaurant hp
  unfold lookedUp
  rw [hlast, Option.bind_some]
  rcases hcard : ownCard menuOf p.restaurantId p.itemId with _ | c
  · split
    · refine Option.eq_none_iff_forall_ne_some.mpr fun c' hc' => ?_
      rw [← hid] at hc'
      have hone := (h q hq (Option.isSome_of_eq_some hc')).1
      have hqp : q = p := eq_of_countP_eq_one hone hq (decide_eq_true rfl) hp
        (decide_eq_true hid.symm)
      rw [hqp, hcard] at hc'
      cases hc'
    · rfl
  · obtain ⟨hone, hmax⟩ := h p hp (Option.isSome_of_eq_some hcard)
    have hqp : q = p := eq_of_countP_eq_one hone hq (decide_eq_true hid) hp (decide_eq_true rfl)
    rw [hqp, if_pos hmax, hcard]

theorem forItems_perm_own (h : Unshared menuOf passages) :
    (forItems (menus menuOf) passages).Perm
      (passages.filterMap fun p => ownCard menuOf p.restaurantId p.itemId) := by
  refine forItems_perm.trans (List.Perm.of_eq ?_)
  exact List.filterMap_congr fun p hp => lookedUp_eq_ownCard h hp

/-- Where a card is put: the last place of its dish. -/
def place (itemIds : List String) (i : String) : ℕ :=
  (((Dict.index Prod.fst itemIds.zipIdx).get i).map Prod.snd).getD
    (Dict.index Prod.fst itemIds.zipIdx).entries.length

theorem pairwise_forItems {catalog : Catalog} : (forItems catalog passages).Pairwise fun a b =>
    place (passages.map Passage.itemId) a.itemId ≤ place (passages.map Passage.itemId) b.itemId :=
  List.pairwise_insertionSort _ _

theorem pairwise_of_countP_le_one {α : Type} {l : List α} {f : α → Bool} (h : l.countP f ≤ 1) :
    l.Pairwise fun x y => ¬ (f x = true ∧ f y = true) := by
  induction l with
  | nil => exact List.Pairwise.nil
  | cons x l ih =>
    rw [List.countP_cons] at h
    refine List.pairwise_cons.mpr ⟨fun y hy ⟨hx, hfy⟩ => ?_, ih (by omega)⟩
    rw [if_pos hx] at h
    have hpos := List.countP_pos_iff.mpr ⟨y, hy, hfy⟩
    omega

/-- The place of a dish that is there once. -/
theorem place_getElem {n : ℕ} (hn : n < passages.length)
    (hone : passages.countP (fun q => q.itemId = passages[n].itemId) = 1) :
    place (passages.map Passage.itemId) passages[n].itemId = n := by
  have hat : (passages[n].itemId, n) ∈ (passages.map Passage.itemId).zipIdx :=
    List.mem_zipIdx_iff_getElem?.mpr (by rw [List.getElem?_map, List.getElem?_eq_getElem hn]; rfl)
  obtain ⟨x, hx⟩ := @Dict.get_gather_of_mem _ _ _ _ Prod.fst (fun x _ => x) _ _ hat
  obtain ⟨hmem, hfst⟩ := Dict.mem_of_get_index hx
  have hget : (Dict.index Prod.fst (passages.map Passage.itemId).zipIdx).get
      passages[n].itemId = some x := hx
  unfold place
  rw [hget, Option.map_some, Option.getD_some]
  -- two places of the dish would make two passages
  have hsecond := List.mem_zipIdx_iff_getElem?.mp hmem
  rw [List.getElem?_map] at hsecond
  obtain ⟨q, hq, hid⟩ := Option.map_eq_some_iff.mp hsecond
  obtain ⟨hlt, rfl⟩ := List.getElem?_eq_some_iff.mp hq
  have hpair := List.pairwise_iff_getElem.mp (pairwise_of_countP_le_one hone.le)
  have hself : decide (passages[n].itemId = passages[n].itemId) = true := decide_eq_true rfl
  have hother : decide (passages[x.2].itemId = passages[n].itemId) = true :=
    decide_eq_true (hid.trans hfst)
  rcases lt_trichotomy x.2 n with hlt' | heq | hgt
  · exact absurd ⟨hother, hself⟩ (hpair _ _ hlt hn hlt')
  · exact heq
  · exact absurd ⟨hself, hother⟩ (hpair _ _ hn hlt hgt)

/-- The keys of cards that keep those of their passages. -/
theorem map_key_filterMap {f : Passage → Option Card}
    (hkey : ∀ p c, f p = some c → c.key = p.key) (passages : List Passage) :
    (passages.filterMap f).map Card.key =
      (passages.filter fun p => (f p).isSome).map Passage.key := by
  induction passages with
  | nil => rfl
  | cons p passages ih =>
    rcases hp : f p with _ | c
    · rw [List.filterMap_cons_none hp,
        List.filter_cons_of_neg (by rw [hp]; exact Bool.false_ne_true)]
      exact ih
    · rw [List.filterMap_cons_some hp, List.filter_cons_of_pos (by rw [hp]; rfl), List.map_cons,
        List.map_cons, hkey p c hp, ih]

/-- **In the order of the passages.** -/
theorem forItems_eq (h : Unshared menuOf passages) : forItems (menus menuOf) passages =
    passages.filterMap fun p => ownCard menuOf p.restaurantId p.itemId := by
  have hplace : ∀ n (hn : n < passages.length) c,
      ownCard menuOf passages[n].restaurantId passages[n].itemId = some c →
        place (passages.map Passage.itemId) c.itemId = n := by
    intro n hn c hc
    rw [(key_of_ownCard hc).2]
    exact place_getElem hn (h _ (List.getElem_mem hn) (Option.isSome_of_eq_some hc)).1
  refine List.Perm.eq_of_pairwise ?_ pairwise_forItems ?_ (forItems_perm_own h)
  · intro a b ha hb hab hba
    have ha := (forItems_perm_own h).mem_iff.mp ha
    obtain ⟨p, hp, hpa⟩ := List.mem_filterMap.mp ha
    obtain ⟨q, hq, hqb⟩ := List.mem_filterMap.mp hb
    obtain ⟨n, hn, rfl⟩ := List.getElem_of_mem hp
    obtain ⟨m, hm, rfl⟩ := List.getElem_of_mem hq
    rw [hplace n hn a hpa, hplace m hm b hqb] at hab hba
    obtain rfl := Nat.le_antisymm hab hba
    exact Option.some.inj (hpa.symm.trans hqb)
  · refine List.pairwise_filterMap.mpr (List.pairwise_iff_getElem.mpr ?_)
    intro n m hn hm hnm a ha b hb
    rw [hplace n hn a ha, hplace m hm b hb]
    exact hnm.le

theorem kept_of_unshared (h : Unshared menuOf passages) :
    Kept menuOf passages (forItems (menus menuOf) passages) := by
  rw [forItems_eq h]
  have hkeys := map_key_filterMap (fun p c (hc : ownCard menuOf p.restaurantId p.itemId = some c) =>
    Prod.ext (key_of_ownCard hc).1 (key_of_ownCard hc).2) passages
  refine ⟨fun c hc => ?_, fun key => ?_, ?_, ?_⟩
  · obtain ⟨p, -, hp⟩ := List.mem_filterMap.mp hc
    obtain ⟨hr, hi⟩ := key_of_ownCard hp
    rw [hr, hi]
    exact hp
  · rw [hkeys, List.mem_map, List.mem_map]
    constructor
    · rintro ⟨p, hp, rfl⟩
      exact ⟨⟨p, (List.mem_filter.mp hp).1, rfl⟩, (List.mem_filter.mp hp).2⟩
    · rintro ⟨⟨p, hp, rfl⟩, hsome⟩
      exact ⟨p, List.mem_filter.mpr ⟨hp, hsome⟩, rfl⟩
  · rw [hkeys]
    refine List.nodup_iff_count_le_one.mpr fun key => ?_
    by_cases hkey : key ∈ (passages.filter fun p =>
        (ownCard menuOf p.restaurantId p.itemId).isSome).map Passage.key
    · obtain ⟨p, hp, rfl⟩ := List.mem_map.mp hkey
      obtain ⟨hmem, hsome⟩ := List.mem_filter.mp hp
      rw [← (h p hmem hsome).1, List.count_eq_countP, List.countP_map, List.countP_filter]
      refine List.countP_mono_left fun q _ hq => ?_
      rw [Bool.and_eq_true, Function.comp_apply, beq_iff_eq] at hq
      exact decide_eq_true (congrArg Prod.snd hq.1)
    · rw [List.count_eq_zero_of_not_mem hkey]
      exact Nat.zero_le 1
  · rw [hkeys]
    exact List.filter_sublist.map _

theorem unshared_of_kept (h : Kept menuOf passages (forItems (menus menuOf) passages)) :
    Unshared menuOf passages := by
  intro p hp hsome
  have hmem := (h.mem p.key).mpr ⟨List.mem_map_of_mem hp, hsome⟩
  have hone := List.count_eq_one_of_mem h.nodup hmem
  rw [(forItems_perm.map Card.key).count_eq] at hone
  -- a card with the key of the passage is of a dish that is looked up at its restaurant
  rw [(forItems_perm.map Card.key).mem_iff] at hmem
  obtain ⟨c, hc, hkey⟩ := List.mem_map.mp hmem
  obtain ⟨q, -, hq⟩ := List.mem_filterMap.mp hc
  obtain ⟨r, hlast, hcard⟩ := Option.bind_eq_some_iff.mp hq
  have hmax : asked passages r ≤ snapshotMax := by
    by_contra hmax
    rw [if_neg hmax] at hcard
    cases hcard
  rw [if_pos hmax] at hcard
  obtain ⟨hr, hi⟩ := key_of_ownCard hcard
  have hpr : r = p.restaurantId := hr.symm.trans (congrArg Prod.fst hkey)
  have hpi : q.itemId = p.itemId := hi.symm.trans (congrArg Prod.snd hkey)
  refine ⟨Nat.le_antisymm ?_ ?_, hpr ▸ hmax⟩
  · -- each passage with the dish makes such a card
    rw [← hone, List.count_eq_countP, List.countP_map, List.countP_filterMap]
    refine List.countP_mono_left fun q' _ hq' => ?_
    rw [of_decide_eq_true hq', ← hpi, hq]
    simpa using hkey
  · exact List.countP_pos_iff.mpr ⟨p, hp, decide_eq_true rfl⟩

/-- **Cards keep their branch** exactly if no dish that can be priced is shared, and no restaurant
is asked for too many. -/
theorem kept_iff : Kept menuOf passages (forItems (menus menuOf) passages) ↔
    Unshared menuOf passages :=
  ⟨unshared_of_kept, kept_of_unshared⟩

/-! ### Two branches of a brand -/

/-- Prawns, at the prices of two branches. -/
def branchMenus (r : String) : Option Menu :=
  if r = "r1" then some ⟨"Fisk", none, some "open", some true,
    Keyed.Table.empty.put ⟨"d1", "Reker", 900, "NOK", true, []⟩⟩
  else if r = "r2" then some ⟨"Fisk", none, some "open", some true,
    Keyed.Table.empty.put ⟨"d1", "Reker", 1100, "NOK", true, []⟩⟩
  else none

/-- **A branch is lost**: both of its cards are the other's. -/
theorem lost_of_branches :
    (forItems (menus branchMenus) [⟨"d1", "r1", "Reker"⟩, ⟨"d1", "r2", "Reker"⟩]).map
        (fun c => (c.restaurantId, c.priceCents)) = [("r2", 1100), ("r2", 1100)] ∧
      (ownCard branchMenus "r1" "d1").map Card.priceCents = some 900 ∧
      ¬ Kept branchMenus [⟨"d1", "r1", "Reker"⟩, ⟨"d1", "r2", "Reker"⟩]
        (forItems (menus branchMenus) [⟨"d1", "r1", "Reker"⟩, ⟨"d1", "r2", "Reker"⟩]) := by
  refine ⟨by decide +kernel, by decide +kernel, fun h => ?_⟩
  have hmem := (h.mem ("r1", "d1")).mpr (by decide +kernel)
  revert hmem
  decide +kernel

end Assistant
