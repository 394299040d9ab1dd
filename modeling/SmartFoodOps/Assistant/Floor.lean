/-
The floor beneath popularity: what is recommended can be ordered, and something is.

* `Orderable` — a dish of the city with a row that can be shown;
* `Recommends` — a list that is sound, and that is empty only if there is nothing to show;
* `sound_passagesIn`, `passagesIn_eq_nil` — what the index makes of a list of dishes;
* `Reached` — of the dishes that the city orders, those that are looked up are not all gone;
* `recommends_iff` — a recommendation is as it should be, exactly if they are not;
* `recommends_of_soldOut` — the counted dishes hide the others when they are all sold out.
-/
import SmartFoodOps.Assistant.Recommend

open Assistant.Attribution (OrderItem)

namespace Assistant

variable {V : Type}

/-- A row of the dish in the city can be shown. -/
def Orderable (index : Index V) (city itemId : String) : Prop :=
  ∃ row ∈ index.items, row.facts.city = city ∧ row.facts.itemId = itemId ∧
    orderable row.facts = true

/-- What the dishes that are shown have to be. -/
structure SoundList (index : Index V) (city : String) (limit : ℕ) (shown : List Passage) :
    Prop where
  rows : ∀ p ∈ shown, ∃ row ∈ index.items, row.facts.city = city ∧ orderable row.facts = true ∧
    p = ⟨row.facts.itemId, row.restaurantId, row.content⟩
  nodup : (shown.map Passage.itemId).Nodup
  length_le : shown.length ≤ limit

/-- Sound, and never needlessly empty. -/
structure Recommends (index : Index V) (city : String) (limit : ℕ) (shown : List Passage) :
    Prop where
  sound : SoundList index city limit shown
  ne_nil : (∃ itemId, Orderable index city itemId) → shown ≠ []

section

variable {index : Index V} {city i : String} {itemIds : List String} {limit : ℕ} {p : Passage}
  {row : Row ItemFacts V}

theorem get_textsByItem (h : (textsByItem index itemIds (some city) none).get i = some row) :
    row ∈ index.items ∧ row.facts.city = city ∧ orderable row.facts = true ∧
      row.facts.itemId = i := by
  obtain ⟨hmem, rfl⟩ := Dict.mem_of_get_index h
  obtain ⟨hrow, hpred⟩ := List.mem_filter.mp hmem
  simp only [Bool.and_eq_true] at hpred
  exact ⟨hrow, of_decide_eq_true hpred.1.2, hpred.1.1.2, rfl⟩

theorem exists_get_textsByItem (hi : i ∈ itemIds) (h : Orderable index city i) :
    ∃ row, (textsByItem index itemIds (some city) none).get i = some row := by
  obtain ⟨row, hrow, hcity, rfl, horderable⟩ := h
  refine Option.ne_none_iff_exists'.mp fun hnone => ?_
  refine Dict.get_index_eq_none.mp hnone row (List.mem_filter.mpr ⟨hrow, ?_⟩) rfl
  simp [hi, hcity, horderable]

/-- The dish of a passage, or its absence. -/
theorem mem_passagesIn : p ∈ passagesIn index city itemIds ↔ p.itemId ∈ itemIds ∧
    ∃ row, (textsByItem index itemIds (some city) none).get p.itemId = some row ∧
      p = ⟨p.itemId, row.restaurantId, row.content⟩ := by
  unfold passagesIn
  simp only [List.mem_filterMap, List.mem_eraseDups, Option.map_eq_some_iff]
  constructor
  · rintro ⟨i, hi, row, hrow, rfl⟩
    exact ⟨hi, row, hrow, rfl⟩
  · rintro ⟨hi, row, hrow, hp⟩
    exact ⟨p.itemId, hi, row, hrow, hp.symm⟩

theorem eraseDups_sublist (l : List String) : l.eraseDups.Sublist l := by
  induction h : l.length using Nat.strong_induction_on generalizing l with
  | _ n ih =>
    rcases l with _ | ⟨a, l⟩
    · exact List.Sublist.refl []
    · subst h
      rw [List.eraseDups_cons]
      have hlen : (l.filter fun b => !b == a).length < (a :: l).length :=
        Nat.lt_succ_of_le (List.length_filter_le _ l)
      exact ((ih _ hlen _ rfl).trans List.filter_sublist).cons_cons a

theorem nodup_eraseDups (l : List String) : l.eraseDups.Nodup := by
  induction h : l.length using Nat.strong_induction_on generalizing l with
  | _ n ih =>
    rcases l with _ | ⟨a, l⟩
    · exact List.nodup_nil
    · subst h
      rw [List.eraseDups_cons]
      have hlen : (l.filter fun b => !b == a).length < (a :: l).length :=
        Nat.lt_succ_of_le (List.length_filter_le _ l)
      refine List.nodup_cons.mpr ⟨fun hmem => ?_, ih _ hlen _ rfl⟩
      have hne := (List.mem_filter.mp (List.mem_eraseDups.mp hmem)).2
      rw [beq_self_eq_true] at hne
      cases hne

theorem itemId_sublist_passagesIn :
    ((passagesIn index city itemIds).map Passage.itemId).Sublist itemIds.eraseDups := by
  unfold passagesIn
  dsimp only
  induction itemIds.eraseDups with
  | nil => exact List.Sublist.refl []
  | cons i rest ih =>
    rcases hget : (textsByItem index itemIds (some city) none).get i with _ | row
    · rw [List.filterMap_cons_none (by rw [hget]; rfl)]
      exact ih.cons i
    · rw [List.filterMap_cons_some (by rw [hget]; rfl)]
      exact ih.cons_cons i

/-- **What the index makes of a list of dishes** is sound, if the list is not too long. -/
theorem sound_passagesIn (hlength : itemIds.length ≤ limit) :
    SoundList index city limit (passagesIn index city itemIds) where
  rows := by
    intro p hp
    obtain ⟨-, row, hget, hp⟩ := mem_passagesIn.mp hp
    obtain ⟨hrow, hcity, horderable, hid⟩ := get_textsByItem hget
    refine ⟨row, hrow, hcity, horderable, ?_⟩
    rw [hid]
    exact hp
  nodup := itemId_sublist_passagesIn.nodup (nodup_eraseDups itemIds)
  length_le := by
    have hle := (@itemId_sublist_passagesIn V index city itemIds).length_le
    rw [List.length_map] at hle
    exact (hle.trans (eraseDups_sublist itemIds).length_le).trans hlength

/-- **Nothing is left** of dishes that cannot be ordered, and only of them. -/
theorem passagesIn_ne_nil :
    passagesIn index city itemIds ≠ [] ↔ ∃ i ∈ itemIds, Orderable index city i := by
  constructor
  · intro hne
    obtain ⟨p, hp⟩ := List.exists_mem_of_ne_nil _ hne
    obtain ⟨hi, row, hget, -⟩ := mem_passagesIn.mp hp
    obtain ⟨hrow, hcity, horderable, hid⟩ := get_textsByItem hget
    exact ⟨p.itemId, hi, row, hrow, hcity, hid, horderable⟩
  · rintro ⟨i, hi, h⟩
    obtain ⟨row, hget⟩ := exists_get_textsByItem hi h
    exact List.ne_nil_of_mem (mem_passagesIn.mpr ⟨hi, row, hget, rfl⟩ :
      ⟨i, row.restaurantId, row.content⟩ ∈ _)

end

/-! ### The three sources of dishes -/

section

variable {hourOf : ℕ → ℕ} {orders : List OrderItem} {index : Index V} {ask : Ask}
  {profile : Option Taste} {city : String} {limit : ℕ}

theorem mem_cityRows {row : Row ItemFacts V} :
    (row ∈ index.items.rows.filter fun row => row.facts.city = city && orderable row.facts) ↔
      row ∈ index.items ∧ row.facts.city = city ∧ orderable row.facts = true := by
  rw [List.mem_filter, Bool.and_eq_true, decide_eq_true_iff]
  exact Iff.rfl

theorem orderable_of_mem_anyIn {i : String} (h : i ∈ anyIn index city limit) :
    Orderable index city i := by
  obtain ⟨row, hrow, rfl⟩ := List.mem_map.mp (List.mem_eraseDups.mp h)
  obtain ⟨hmem, hcity, horderable⟩ :=
    mem_cityRows.mp ((List.mem_insertionSort _).mp (List.mem_of_mem_take hrow))
  exact ⟨row, hmem, hcity, rfl, horderable⟩

/-- A city with a dish has a cheapest one. -/
theorem exists_mem_anyIn (hlimit : 0 < limit) (h : ∃ i, Orderable index city i) :
    ∃ i ∈ anyIn index city limit, Orderable index city i := by
  obtain ⟨_, row, hrow, hcity, -, horderable⟩ := h
  have hmem := (List.mem_insertionSort fun a b : Row ItemFacts V =>
    a.facts.priceCents < b.facts.priceCents ∨
      a.facts.priceCents = b.facts.priceCents ∧ a.facts.itemId ≤ b.facts.itemId).mpr
    (mem_cityRows.mpr ⟨hrow, hcity, horderable⟩)
  obtain ⟨first, rest, hrows⟩ := List.ne_nil_iff_exists_cons.mp (List.ne_nil_of_mem hmem)
  have hfirst : first.facts.itemId ∈ anyIn index city limit := by
    obtain ⟨n, rfl⟩ := Nat.exists_eq_succ_of_ne_zero hlimit.ne'
    unfold anyIn
    rw [hrows]
    exact List.mem_eraseDups.mpr (List.mem_map.mpr ⟨first, List.mem_cons_self, rfl⟩)
  exact ⟨_, hfirst, orderable_of_mem_anyIn hfirst⟩

theorem length_anyIn_le : (anyIn index city limit).length ≤ limit := by
  unfold anyIn
  refine (eraseDups_sublist _).length_le.trans ?_
  rw [List.length_map]
  exact List.length_take_le _ _

theorem length_rank_le {rows : List Popular} : (rank rows limit).length ≤ limit :=
  List.length_take_le _ _

/-- The dishes that are looked up, of those that the city orders, are not all gone. -/
def Reached (hourOf : ℕ → ℕ) (orders : List OrderItem) (index : Index V) (ask : Ask)
    (limit : ℕ) : Prop :=
  (∃ i, Orderable index ask.city i) → popularIn hourOf orders index ask ≠ [] →
    ∃ d ∈ rank (popularIn hourOf orders index ask) limit, Orderable index ask.city d.itemId

theorem rank_eq_nil {rows : List Popular} (hlimit : 0 < limit) : rank rows limit = [] ↔ rows = [] := by
  unfold rank
  rw [List.take_eq_nil_iff, or_iff_right hlimit.ne', ← List.length_eq_zero_iff,
    List.length_insertionSort, List.length_eq_zero_iff]

theorem sound_popular :
    SoundList index ask.city limit (popular hourOf orders index ask limit) := by
  unfold popular
  dsimp only
  split
  · exact sound_passagesIn length_anyIn_le
  · exact sound_passagesIn (by rw [List.length_map]; exact length_rank_le)

/-- **The baseline** shows something exactly if a dish that is looked up can be ordered. -/
theorem popular_ne_nil (hlimit : 0 < limit) :
    ((∃ i, Orderable index ask.city i) → popular hourOf orders index ask limit ≠ []) ↔
      Reached hourOf orders index ask limit := by
  unfold Reached
  refine forall_congr' fun h => ?_
  unfold popular
  dsimp only
  by_cases hnone : popularIn hourOf orders index ask = []
  · rw [if_pos ((rank_eq_nil hlimit).mpr hnone)]
    refine iff_of_true ?_ fun hcounted => absurd hnone hcounted
    exact passagesIn_ne_nil.mpr (exists_mem_anyIn hlimit h)
  · rw [if_neg (mt (rank_eq_nil hlimit).mp hnone), passagesIn_ne_nil, imp_iff_right hnone]
    simp only [List.mem_map, exists_exists_and_eq_and]

theorem menuAttributes_ne_nil :
    menuAttributes index city ≠ [] ↔ ∃ i, Orderable index city i := by
  unfold menuAttributes
  rw [Ne, List.map_eq_nil_iff]
  refine ⟨fun hne => ?_, fun ⟨_, row, hrow, hcity, _, horderable⟩ => ?_⟩
  · obtain ⟨row, hrow⟩ := List.exists_mem_of_ne_nil _ hne
    obtain ⟨hmem, hcity, horderable⟩ := mem_cityRows.mp hrow
    exact ⟨_, row, hmem, hcity, rfl, horderable⟩
  · exact List.ne_nil_of_mem (mem_cityRows.mpr ⟨hrow, hcity, horderable⟩)

/-- One candidate for each dish. -/
theorem mem_unique {c : Attributes} {candidates : List Attributes}
    (h : c ∈ (Dict.gather Attributes.itemId (fun c first => first.getD c) candidates).values) :
    c ∈ candidates := by
  obtain ⟨k, hget⟩ := Dict.mem_values.mp h
  have hfind : (candidates.find? fun x => x.itemId = k).map id = some c :=
    Dict.get_gather_getD.symm.trans hget
  rw [Option.map_id_fun, id] at hfind
  exact List.mem_of_find?_eq_some hfind

theorem length_recommend_le {taste : Taste} {candidates : List Attributes} :
    (recommend taste candidates limit).length ≤ limit :=
  List.length_take_le _ _

/-- The candidates are of the city, and so the best of them can be ordered. -/
theorem exists_mem_recommend {taste : Taste} (hlimit : 0 < limit)
    (h : ∃ i, Orderable index city i) :
    ∃ i ∈ (recommend taste (Dict.gather Attributes.itemId (fun c first => first.getD c)
      (menuAttributes index city)).values limit).map Attributes.itemId,
      Orderable index city i := by
  obtain ⟨c, hc⟩ := List.exists_mem_of_ne_nil _ (menuAttributes_ne_nil.mpr h)
  obtain ⟨c', hget⟩ := @Dict.get_gather_of_mem _ _ _ _ Attributes.itemId
    (fun c first => first.getD c) _ _ hc
  have hne : recommend taste (Dict.gather Attributes.itemId (fun c first => first.getD c)
      (menuAttributes index city)).values limit ≠ [] := by
    unfold recommend
    rw [Ne, List.take_eq_nil_iff, not_or]
    refine ⟨hlimit.ne', fun hnil => ?_⟩
    have hmem := (List.mem_insertionSort fun a b => score taste b < score taste a ∨
      score taste a = score taste b ∧ a.itemId ≤ b.itemId).mpr (Dict.mem_values.mpr ⟨_, hget⟩)
    rw [hnil] at hmem
    exact absurd hmem List.not_mem_nil
  obtain ⟨best, hbest⟩ := List.exists_mem_of_ne_nil _ hne
  have hcandidate := mem_unique ((List.mem_insertionSort _).mp (List.mem_of_mem_take hbest))
  obtain ⟨row, hrow, rfl⟩ := List.mem_map.mp hcandidate
  obtain ⟨hmem, hcity, horderable⟩ := mem_cityRows.mp hrow
  exact ⟨row.facts.itemId, List.mem_map.mpr ⟨_, hbest, rfl⟩, row, hmem, hcity, rfl, horderable⟩

/-- A customer with enough history. -/
def Personal (profile : Option Taste) : Prop := ∃ taste ∈ profile, taste.thin = false

/-- With a taste and a menu the dishes are chosen by it; else they are the baseline's. -/
theorem forUser_cases :
    (forUser hourOf orders index ask profile limit).2 = popular hourOf orders index ask limit ∧
        (Personal profile → menuAttributes index ask.city = []) ∨
      ∃ taste, Personal profile ∧ (forUser hourOf orders index ask profile limit).2 =
        passagesIn index ask.city ((recommend taste (Dict.gather Attributes.itemId
          (fun c first => first.getD c) (menuAttributes index ask.city)).values limit).map
            Attributes.itemId) := by
  unfold forUser Personal
  rcases profile with _ | taste
  · exact .inl ⟨rfl, fun ⟨_, h, _⟩ => by cases h⟩
  · dsimp only
    by_cases hbase : taste.thin = true ∨ menuAttributes index ask.city = []
    · rw [if_pos hbase]
      refine .inl ⟨rfl, ?_⟩
      rintro ⟨_, ⟨⟩, hthick⟩
      exact hbase.resolve_left (by rw [hthick]; exact Bool.false_ne_true)
    · rw [if_neg hbase]
      exact .inr ⟨taste, ⟨taste, rfl, Bool.eq_false_iff.mpr fun h => hbase (.inl h)⟩, rfl⟩

theorem recommends_popular (hlimit : 0 < limit) :
    Recommends index ask.city limit (popular hourOf orders index ask limit) ↔
      Reached hourOf orders index ask limit :=
  ⟨fun h => (popular_ne_nil hlimit).mp h.ne_nil,
    fun h => ⟨sound_popular, (popular_ne_nil hlimit).mpr h⟩⟩

theorem recommends_forUser (hlimit : 0 < limit) :
    Recommends index ask.city limit (forUser hourOf orders index ask profile limit).2 ↔
      Personal profile ∨ Reached hourOf orders index ask limit := by
  rcases @forUser_cases V hourOf orders index ask profile limit with
    ⟨hfor, hnone⟩ | ⟨taste, hpersonal, hfor⟩
  · rw [hfor, recommends_popular hlimit]
    refine ⟨.inr, fun h => h.elim (fun hpersonal hsome => ?_) id⟩
    -- nothing can be ordered in the city
    exact absurd (hnone hpersonal) (menuAttributes_ne_nil.mpr hsome)
  · rw [hfor]
    refine iff_of_true ⟨sound_passagesIn ?_, fun hsome => ?_⟩ (.inl hpersonal)
    · rw [List.length_map]
      exact length_recommend_le
    · exact passagesIn_ne_nil.mpr (exists_mem_recommend hlimit hsome)

/-- **Sound, and never needlessly empty**: the baseline exactly if the dishes that the city orders
are not all gone, of those that are looked up; and so a customer's dishes, unless there is a taste
to choose them by. -/
theorem recommends_iff (hlimit : 0 < limit) :
    (Recommends index ask.city limit (popular hourOf orders index ask limit) ↔
      Reached hourOf orders index ask limit) ∧
    (Recommends index ask.city limit (forUser hourOf orders index ask profile limit).2 ↔
      Personal profile ∨ Reached hourOf orders index ask limit) :=
  ⟨recommends_popular hlimit, recommends_forUser hlimit⟩

end

/-! ### A dish that is sold out -/

/-- The dish that everybody ordered, and the one that is left. -/
def soldOut : Index Unit where
  restaurants := Keyed.Table.empty.put (branch "r1" "Oslo")
  items := (Keyed.Table.empty.put ⟨"r1:d1", "r1", "Laks",
      ⟨"d1", "Oslo", none, [], "Mains", [], "Laks", 1900, false, "open"⟩, ()⟩).put
    ⟨"r1:d2", "r1", "Reker", ⟨"d2", "Oslo", none, [], "Mains", [], "Reker", 900, true, "open"⟩, ()⟩

/-- An order of the first dish. -/
def ordersOfLaks : List OrderItem := [⟨"o1", "d1", "r1", "u1", 1, 0⟩]

theorem recommends_iff_soldOut :
    (Recommends soldOut "Oslo" 8
        (popular (fun _ => 12) ordersOfLaks soldOut ⟨"Oslo", 0, 12⟩ 8) ↔
      Reached (fun _ => 12) ordersOfLaks soldOut ⟨"Oslo", 0, 12⟩ 8) ∧
    (Recommends soldOut "Oslo" 8
        (forUser (fun _ => 12) ordersOfLaks soldOut ⟨"Oslo", 0, 12⟩ none 8).2 ↔
      Personal none ∨ Reached (fun _ => 12) ordersOfLaks soldOut ⟨"Oslo", 0, 12⟩ 8) :=
  @recommends_iff Unit (fun _ => 12) ordersOfLaks soldOut ⟨"Oslo", 0, 12⟩ none 8 (by decide)

/-- **Needlessly empty**: the dish that is ordered most is sold out, and the other one is not
shown. -/
theorem recommends_of_soldOut : Orderable soldOut "Oslo" "d2" ∧
    ¬ Recommends soldOut "Oslo" 8
      (popular (fun _ => 12) ordersOfLaks soldOut ⟨"Oslo", 0, 12⟩ 8) ∧
    ¬ Recommends soldOut "Oslo" 8
      (forUser (fun _ => 12) ordersOfLaks soldOut ⟨"Oslo", 0, 12⟩ none 8).2 := by
  have hshown : Orderable soldOut "Oslo" "d2" := by
    unfold Orderable
    decide +kernel
  have hempty : popular (fun _ => 12) ordersOfLaks soldOut ⟨"Oslo", 0, 12⟩ 8 = [] := by
    decide +kernel
  exact ⟨hshown, fun h => h.ne_nil ⟨_, hshown⟩ hempty, fun h => h.ne_nil ⟨_, hshown⟩ hempty⟩

end Assistant
