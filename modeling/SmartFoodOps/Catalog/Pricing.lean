/-
The pricing read of the money path, against the menu that the customer sees.

Both read one snapshot of the committed tables: a menu is rendered from all rows in
scope, grouped by category, and pricing reads the requested items alone.

* `Db.pricingRead` — `pricing_read`, with `get_pricing_rows`;
* `items_of_document` — in the tables of a reachable state, a menu has each item of its
  scope once;
* `modifiers_of_menu`, `modifiers_of_pricing` — an item's modifiers, on both paths;
* `pricing_agrees` — pricing answers what the menu shows.
-/
import SmartFoodOps.Catalog.Commits

open Keyed Program Machine

namespace Catalog

variable {n : ℕ} {zone : String} {purposeOf : ℕ → Purpose} {db : Db} {r : RestaurantId}

structure PricedOption where
  id : OptionId
  name : String
  priceDeltaCents : ℤ
  deriving DecidableEq

structure PricedGroup where
  id : GroupId
  name : String
  minSelect : ℤ
  maxSelect : ℤ
  options : List PricedOption
  deriving DecidableEq

structure PricedItem where
  id : ItemId
  name : String
  priceCents : ℤ
  currency : String
  available : Bool
  modifierGroups : List PricedGroup
  deriving DecidableEq

structure PricedRestaurant where
  id : RestaurantId
  name : String
  displayName : String
  brandId : Option RestaurantId
  city : Option String
  status : Option RestaurantStatus
  /-- `none` for a brand. -/
  openNow : Option Bool
  deriving DecidableEq

structure PricingDoc where
  restaurant : PricedRestaurant
  items : List PricedItem
  missingItemIds : List ItemId
  deriving DecidableEq

structure PricingRows where
  items : List MenuItem
  groups : List ModifierGroup
  options : List ModifierOption

namespace Db

variable (db)

/-- The item query of `get_pricing_rows`, in no order. -/
def pricingItems (scope : List RestaurantId) (itemIds : List ItemId) : List MenuItem :=
  (db.rows.filterMap Row.asItem).filter fun i => i.id ∈ itemIds ∧ i.restaurantId ∈ scope

def pricingRows (scope : List RestaurantId) (itemIds : List ItemId) : PricingRows :=
  let items := db.pricingItems scope itemIds
  let groups := if items = [] then [] else db.groups (items.map (·.id))
  let options := if groups = [] then [] else db.options (groups.map (·.id))
  ⟨items, groups, options⟩

/-- The entry of an item that was found. -/
def pricedItem (overrides : List ItemId) (rows : PricingRows) (item : MenuItem) : PricedItem where
  id := item.id
  name := item.name
  priceCents := item.priceCents
  currency := item.currency
  available := item.available && decide (item.id ∉ overrides)
  modifierGroups := (rows.groups.filter fun g => g.itemId = item.id).map fun g =>
    { id := g.id
      name := g.name
      minSelect := g.minSelect
      maxSelect := g.maxSelect
      options := (rows.options.filter fun o => o.groupId = g.id).map fun o =>
        ⟨o.id, o.name, o.priceDeltaCents⟩ }

/-- `pricing_read`; `isOpenAt` is the schedule library's. -/
def pricingRead (isOpenAt : Option Hours → String → Time → Bool) (now : Time) (r : RestaurantId)
    (itemIds : List ItemId) : Option PricingDoc :=
  (db.read r).map fun restaurant =>
    let overrides := if restaurant.brandId.isSome then db.overrides r else []
    let rows := db.pricingRows (menuScope restaurant) itemIds
    let byId := fun id => rows.items.find? fun i => i.id = id
    { restaurant :=
        { id := restaurant.id
          name := restaurant.name
          displayName := restaurant.displayName
          brandId := restaurant.brandId
          city := restaurant.city
          status := restaurant.status
          openNow := restaurant.timezone.map fun zone => isOpenAt restaurant.hours zone now }
      items := itemIds.filterMap fun id => (byId id).map (pricedItem overrides rows)
      missingItemIds := itemIds.filter fun id => byId id = none }

end Db

/-! ### What the menu shows -/

/-- All items of a menu, category by category. -/
def Menu.items (menu : Menu) : List ItemDoc := menu.flatMap (·.items)

/-- What pricing should say about a group of the menu. -/
def GroupDoc.priced (g : GroupDoc) : PricedGroup :=
  ⟨g.id, g.name, g.minSelect, g.maxSelect,
    g.options.map fun o => ⟨o.id, o.name, o.priceDeltaCents⟩⟩

/-- What pricing should say about an item of the menu. -/
def ItemDoc.priced (i : ItemDoc) : PricedItem :=
  ⟨i.id, i.name, i.priceCents, i.currency, i.available, i.modifierGroups.map GroupDoc.priced⟩

/-! ### An item's modifiers -/

def Db.modifiers (db : Db) (i : ItemId) : List PricedGroup :=
  (db.groups [i]).map fun g => ⟨g.id, g.name, g.minSelect, g.maxSelect,
    (db.options [g.id]).map fun o => ⟨o.id, o.name, o.priceDeltaCents⟩⟩

/-- The rows of one item, among those of more. -/
theorem groups_filter {ids : List ItemId} {i : ItemId} (hi : i ∈ ids) :
    ((db.groups ids).filter fun g => g.itemId = i) = db.groups [i] := by
  rw [Db.groups, Table.filter_select (tells_groups _)]
  refine congrArg (db.select · _ _) (funext fun row => ?_)
  rw [Option.filter_filter]
  refine congrArg (Option.filter · _) (funext fun g => ?_)
  by_cases h : g.itemId = i <;> simp [h, hi]

theorem options_filter {ids : List GroupId} {g : GroupId} (hg : g ∈ ids) :
    ((db.options ids).filter fun o => o.groupId = g) = db.options [g] := by
  rw [Db.options, Table.filter_select (tells_options _)]
  refine congrArg (db.select · _ _) (funext fun row => ?_)
  rw [Option.filter_filter]
  refine congrArg (Option.filter · _) (funext fun o => ?_)
  by_cases h : o.groupId = g <;> simp [h, hg]

theorem nodup_groups {ids : List ItemId} : ((db.groups ids).map (·.id)).Nodup :=
  Table.nodup_ids (fun id => .modifierGroup id) fun row g h => by
    rw [Row.asGroup_eq_some.mp (Option.filter_eq_some_iff.mp h).1]
    rfl

theorem mem_groups_of_item {ids : List ItemId} {i : ItemId} (hi : i ∈ ids) {g : ModifierGroup}
    (hg : g ∈ db.groups [i]) : g.id ∈ (db.groups ids).map (·.id) := by
  rw [← groups_filter hi] at hg
  exact List.mem_map_of_mem (List.mem_of_mem_filter hg)

/-- The menu gives an item its modifiers. -/
theorem modifiers_of_menu {R : Restaurant} {overrides : List ItemId} {scope : List RestaurantId}
    {item : MenuItem} (h : item ∈ db.items scope) :
    (menuEntry R overrides (db.menuRows scope) item).modifierGroups.map GroupDoc.priced =
      db.modifiers item.id := by
  have hi : item.id ∈ (db.items scope).map (·.id) := List.mem_map_of_mem h
  have hgroups : ((db.groups ((db.items scope).map (·.id))).filter fun g => g.itemId = item.id) =
      db.groups [item.id] := groups_filter hi
  show ((((db.menuRows scope).groups.filter fun g => g.itemId = item.id).map _).map _) = _
  simp only [Db.menuRows, hgroups, List.map_map, Db.modifiers]
  refine List.map_congr_left fun g hg => ?_
  have hg' := mem_groups_of_item hi hg
  simp only [Function.comp_apply, GroupDoc.priced, List.map_map]
  refine congrArg (PricedGroup.mk g.id g.name g.minSelect g.maxSelect) ?_
  -- the options of all groups of the item, and of those the group's own
  have hnodup : ((db.groups [item.id]).map (·.id)).Nodup := nodup_groups
  have hgroup := filter_flatMap_filter (g := ModifierOption.groupId) hnodup
    (l := db.options ((db.groups ((db.items scope).map (·.id))).map (·.id)))
    (List.mem_map_of_mem hg)
  rw [List.flatMap_map] at hgroup
  rw [hgroup, options_filter hg']
  rfl

/-- Pricing gives an item its modifiers. -/
theorem modifiers_of_pricing {overrides : List ItemId} {scope : List RestaurantId}
    {ids : List ItemId} {item : MenuItem} (h : item ∈ db.pricingItems scope ids) :
    (Db.pricedItem overrides (db.pricingRows scope ids) item).modifierGroups =
      db.modifiers item.id := by
  have hi : item.id ∈ (db.pricingItems scope ids).map (·.id) := List.mem_map_of_mem h
  have hne : db.pricingItems scope ids ≠ [] := List.ne_nil_of_mem h
  have hgroups : ((db.groups ((db.pricingItems scope ids).map (·.id))).filter
      fun g => g.itemId = item.id) = db.groups [item.id] := groups_filter hi
  simp only [Db.pricedItem, Db.pricingRows, hne, if_false, hgroups, Db.modifiers]
  refine List.map_congr_left fun g hg => ?_
  have hg' := mem_groups_of_item hi hg
  have hne' : db.groups ((db.pricingItems scope ids).map (·.id)) ≠ [] := by
    intro hnil
    rw [hnil] at hg'
    cases hg'
  rw [if_neg hne', options_filter hg']

/-! ### The items of a menu -/

/-- An item's category is one of the menu's. -/
theorem category_in_scope (hdb : db.Typed purposeOf) (hvalid : db.Valid) {R : Restaurant}
    (hR : db.read r = some R) {item : MenuItem} (h : item ∈ db.items (menuScope R)) :
    item.categoryId ∈ (db.categories (menuScope R)).map (·.id) := by
  obtain ⟨hmem, hscope⟩ := mem_items.mp h
  obtain ⟨rfl, hRt⟩ := read_typed hdb hR
  obtain ⟨-, o, hc, ho⟩ := hdb _ hmem
  have hthere := hvalid.foreign _ hmem (.menuCategory item.categoryId) (by simp [Row.references])
  obtain ⟨row, hrow⟩ := Option.ne_none_iff_exists'.mp hthere
  obtain ⟨hrow, hk⟩ := Table.find_eq_some.mp hrow
  obtain ⟨c, rfl, hid⟩ : ∃ c, row = .menuCategory c ∧ c.id = item.categoryId := by
    cases row with
    | menuCategory c => exact ⟨c, rfl, Key.menuCategory.inj hk⟩
    | _ => cases hk
  have hct : purposeOf c.id = .category c.restaurantId := hdb _ hrow
  rw [hid, hc] at hct
  obtain rfl : o = c.restaurantId := Purpose.category.inj hct
  refine List.mem_map.mpr ⟨c, mem_categories.mpr ⟨hrow, ?_⟩, hid⟩
  rcases ho with ho | ho
  · rwa [ho]
  -- an item of a branch under a category of its brand
  unfold menuScope at hscope ⊢
  cases hk : R.kind with
  | brand =>
    obtain ⟨hbrand, hnone⟩ := hRt.brand hk
    rw [hnone] at hscope ⊢
    rw [List.mem_singleton.mp hscope, hbrand] at ho
    cases ho
  | branch =>
    obtain ⟨b, hb, hp, hbrand⟩ := hRt.branch hk
    rw [hb] at hscope ⊢
    rcases List.mem_cons.mp hscope with hib | hscope
    · rw [hib, hbrand] at ho
      cases ho
    · rw [List.mem_singleton.mp hscope, hp] at ho
      cases ho
      exact List.mem_cons_self

theorem nodup_items {scope : List RestaurantId} : ((db.items scope).map (·.id)).Nodup :=
  Table.nodup_ids (fun id => .menuItem id) fun row i h => by
    rw [Row.asItem_eq_some.mp (Option.filter_eq_some_iff.mp h).1]
    rfl

theorem nodup_categories {scope : List RestaurantId} : ((db.categories scope).map (·.id)).Nodup :=
  Table.nodup_ids (fun id => .menuCategory id) fun row c h => by
    rw [Row.asCategory_eq_some.mp (Option.filter_eq_some_iff.mp h).1]
    rfl

/-- The entry of an item in a menu. -/
def Db.entry (db : Db) (R : Restaurant) (item : MenuItem) : ItemDoc :=
  menuEntry R (if R.brandId.isSome then db.overrides R.id else []) (db.menuRows (menuScope R)) item

/-- **A menu has each item of its scope once.** -/
theorem items_of_menu (hdb : db.Typed purposeOf) (hvalid : db.Valid) {R : Restaurant}
    (hR : db.read r = some R) :
    (db.menu R).items.Perm ((db.items (menuScope R)).map (db.entry R)) := by
  have hnodup : ((db.categories (menuScope R)).map (·.id)).Nodup := nodup_categories
  have hgroups := flatMap_filter_perm (g := MenuItem.categoryId) hnodup
    fun i hi => category_in_scope hdb hvalid hR hi
  have hitems : (db.menu R).items = (((db.categories (menuScope R)).map (·.id)).flatMap
      fun k => (db.items (menuScope R)).filter fun i => i.categoryId = k).map (db.entry R) := by
    simp only [Menu.items, Db.menu, menuTree, List.flatMap_map, List.map_flatMap]
    rfl
  rw [hitems]
  exact hgroups.map _

theorem nodup_menu (hdb : db.Typed purposeOf) (hvalid : db.Valid) {R : Restaurant}
    (hR : db.read r = some R) : ((db.menu R).items.map (·.id)).Nodup := by
  refine (((items_of_menu hdb hvalid hR).map (·.id)).nodup_iff).mpr ?_
  rw [List.map_map]
  exact nodup_items

theorem mem_menu (hdb : db.Typed purposeOf) (hvalid : db.Valid) {R : Restaurant}
    (hR : db.read r = some R) {e : ItemDoc} :
    e ∈ (db.menu R).items ↔ ∃ i ∈ db.items (menuScope R), db.entry R i = e := by
  rw [(items_of_menu hdb hvalid hR).mem_iff, List.mem_map]

/-! ### Both paths -/

theorem mem_pricingItems {scope : List RestaurantId} {ids : List ItemId} {i : MenuItem} :
    i ∈ db.pricingItems scope ids ↔ i ∈ db.items scope ∧ i.id ∈ ids := by
  rw [mem_items]
  simp only [Db.pricingItems, List.mem_filter, List.mem_filterMap, Row.asItem_eq_some]
  simp only [exists_eq_right, decide_eq_true_eq, Table.mem_def]
  tauto

theorem nodup_pricingItems {scope : List RestaurantId} {ids : List ItemId} :
    ((db.pricingItems scope ids).map (·.id)).Nodup := by
  have hall : ((db.rows.filterMap Row.asItem).map (·.id)).Nodup := by
    refine List.pairwise_map.mpr (List.Pairwise.filterMap _ ?_ (List.pairwise_map.mp db.distinct))
    intro row row' hne i hi i' hi' heq
    rw [Row.asItem_eq_some.mp hi, Row.asItem_eq_some.mp hi'] at hne
    exact hne (congrArg Key.menuItem heq)
  exact hall.sublist (List.filter_sublist.map _)

/-- **The two paths say the same about an item.** -/
theorem priced_entry {R : Restaurant} {ids : List ItemId} {i : MenuItem}
    (h : i ∈ db.pricingItems (menuScope R) ids) :
    Db.pricedItem (if R.brandId.isSome then db.overrides R.id else [])
      (db.pricingRows (menuScope R) ids) i = (db.entry R i).priced := by
  have hmenu : (db.entry R i).modifierGroups.map GroupDoc.priced = db.modifiers i.id :=
    modifiers_of_menu (mem_pricingItems.mp h).1
  have hpricing : (Db.pricedItem (if R.brandId.isSome then db.overrides R.id else [])
      (db.pricingRows (menuScope R) ids) i).modifierGroups = db.modifiers i.id :=
    modifiers_of_pricing h
  rw [ItemDoc.priced, hmenu, ← hpricing]
  refine congrArg (fun b => PricedItem.mk i.id i.name i.priceCents i.currency b _) ?_
  show (i.available && decide (i.id ∉ _)) = if i.id ∈ _ then false else i.available
  generalize (if R.brandId.isSome then db.overrides R.id else []) = overrides
  by_cases hmem : i.id ∈ overrides <;> simp [hmem]

/-- What a requested identifier finds, on both paths. -/
theorem find_agrees (hdb : db.Typed purposeOf) (hvalid : db.Valid) {R : Restaurant}
    (hR : db.read r = some R) {ids : List ItemId} {id : ItemId} (hid : id ∈ ids) :
    ((db.pricingItems (menuScope R) ids).find? fun i => i.id = id).map (db.entry R) =
      (db.menu R).items.find? fun e => e.id = id := by
  cases h : (db.pricingItems (menuScope R) ids).find? fun i => i.id = id with
  | some i =>
    obtain ⟨hmem, rfl⟩ := (find?_eq_some_of_nodup nodup_pricingItems).mp h
    refine ((find?_eq_some_of_nodup (nodup_menu hdb hvalid hR)).mpr ⟨?_, rfl⟩).symm
    exact (mem_menu hdb hvalid hR).mpr ⟨i, (mem_pricingItems.mp hmem).1, rfl⟩
  | none =>
    refine (List.find?_eq_none.mpr fun e he heq => ?_).symm
    obtain ⟨i, hi, rfl⟩ := (mem_menu hdb hvalid hR).mp he
    have heq : i.id = id := of_decide_eq_true heq
    exact List.find?_eq_none.mp h i (mem_pricingItems.mpr ⟨hi, heq ▸ hid⟩) (decide_eq_true heq)

/-- **What the customer sees is what is charged.** -/
theorem pricing_agrees {ok : System n → Event n → Prop} {es : List (Event n)} {s : System n}
    (h : Run (step zone purposeOf) ok .empty es s) (isOpenAt : Option Hours → String → Time → Bool)
    (now : Time) (r : RestaurantId) (ids : List ItemId) {R : Restaurant} {doc : MenuDoc}
    (hR : s.db.read r = some R) (hdoc : s.db.document r = some doc) :
    (doc.menu.items.map (·.id)).Nodup ∧
      (∀ id, id ∈ doc.menu.items.map (·.id) ↔
        ∃ i, .menuItem i ∈ s.db ∧ i.id = id ∧ i.restaurantId ∈ menuScope R) ∧
        ∃ p, s.db.pricingRead isOpenAt now r ids = some p ∧
          p.items = ids.filterMap (fun id =>
            (doc.menu.items.find? fun e => e.id = id).map ItemDoc.priced) ∧
            p.missingItemIds = ids.filter fun id => id ∉ doc.menu.items.map (·.id) := by
  obtain ⟨hdb, hvalid, -⟩ := sound_of_run h
  obtain ⟨R', hR', rfl⟩ := Option.map_eq_some_iff.mp hdoc
  obtain rfl : R' = R := Option.some.inj (hR'.symm.trans hR)
  have hself : R'.id = r := (read_typed hdb hR).1
  refine ⟨nodup_menu hdb hvalid hR, fun id => ?_, _, by rw [Db.pricingRead, hR]; rfl, ?_, ?_⟩
  · constructor
    · intro hid
      obtain ⟨e, he, rfl⟩ := List.mem_map.mp hid
      obtain ⟨i, hi, rfl⟩ := (mem_menu hdb hvalid hR).mp he
      obtain ⟨hmem, hscope⟩ := mem_items.mp hi
      exact ⟨i, hmem, rfl, hscope⟩
    · rintro ⟨i, hmem, rfl, hscope⟩
      exact List.mem_map.mpr
        ⟨_, (mem_menu hdb hvalid hR).mpr ⟨i, mem_items.mpr ⟨hmem, hscope⟩, rfl⟩, rfl⟩
  · refine List.filterMap_congr fun id hid => ?_
    rw [← find_agrees hdb hvalid hR hid, Option.map_map]
    refine Option.map_congr fun i hi => ?_
    subst hself
    exact priced_entry (List.mem_of_find?_eq_some hi)
  · refine List.filter_congr fun id hid => ?_
    have hfind := find_agrees hdb hvalid hR hid
    refine decide_eq_decide.mpr ?_
    show (s.db.pricingItems (menuScope R') ids).find? (fun i => i.id = id) = none ↔ _
    rw [← Option.map_eq_none_iff (f := s.db.entry R'), hfind, List.find?_eq_none]
    simp

/-- Branch 2 gets a category with one item. -/
def stocking : List (Event 1) :=
  creation 0 ++ .start 0 (.addCategory 2 "Soups" 0) :: runs 0 1 ++ [.run 0 3] ++ runs 0 9 ++
    [.run 0 20] ++ runs 0 4 ++ .start 0 (.addItem 2 3 ⟨"Ramen", none, 900, "INR", true, 0⟩ ["hot"]
      [⟨"Size", 1, 1, 0, [⟨"Large", 150, 0⟩]⟩]) :: runs 0 3 ++ [.run 0 4] ++ runs 0 3 ++
        [.run 0 5, .run 0 6] ++ runs 0 17 ++ [.run 0 21] ++ runs 0 4

theorem pricing_of_stocking : ∃ (s : System 1) (R : Restaurant) (doc : MenuDoc) (p : PricingDoc),
    Run (step "UTC" demoPurposes) Always .empty stocking s ∧ s.db.read 2 = some R ∧
      s.db.document 2 = some doc ∧ doc.menu.items.map (·.id) = [4] ∧
      s.db.pricingRead (fun _ _ _ => true) 5 2 [9, 4] = some p ∧
      p.items = [9, 4].filterMap (fun id =>
        (doc.menu.items.find? fun e => e.id = id).map ItemDoc.priced) ∧
      p.missingItemIds = [9] := by
  obtain ⟨s, hrun, hp⟩ : ∃ s : System 1, Run (step "UTC" demoPurposes) Always .empty stocking s ∧
      decide ((s.db.document 2).map (fun doc => doc.menu.items.map (·.id)) = some [4]) = true :=
    exists_run_of_execOk (by decide)
  obtain ⟨doc, hdoc, hids⟩ := Option.map_eq_some_iff.mp (of_decide_eq_true hp)
  obtain ⟨R, hR, -⟩ := Option.map_eq_some_iff.mp hdoc
  obtain ⟨-, -, p, hpricing, hitems, hmissing⟩ :=
    pricing_agrees hrun (fun _ _ _ => true) 5 2 [9, 4] hR hdoc
  refine ⟨s, R, doc, p, hrun, hR, hdoc, hids, hpricing, hitems, ?_⟩
  rw [hmissing, hids]
  decide

end Catalog
