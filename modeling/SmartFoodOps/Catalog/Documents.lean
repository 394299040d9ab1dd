/-
Which rows a restaurant's document depends on.

An identifier tells what it was drawn for, so a row's key tells whose the row is: the
restaurant that it was written for.  A document is made of the restaurant's own rows and
of its brand's.

* `Row.Typed` — the row's columns say what its identifiers were drawn for;
* `Key.owner` — the restaurant whose row it is;
* `read_congr`, `menu_congr` — the profile and the menu are the same on tables that agree
  on the rows of the restaurant and of its brand.
-/
import SmartFoodOps.Catalog.Service

open Keyed

namespace Catalog

/-! ### Owners -/

section

variable (purposeOf : ℕ → Purpose)

/-- The category belongs to the restaurant or to its brand. -/
def InScope (r : RestaurantId) (c : CategoryId) : Prop :=
  ∃ o, purposeOf c = .category o ∧ (o = r ∨ purposeOf r = .branch o)

/-- The columns say what the identifiers were drawn for. -/
def Row.Typed : Row → Prop
  | restaurant r =>
    match r.kind with
    | .brand => purposeOf r.id = .brand
    | .branch => ∃ b, purposeOf r.id = .branch b ∧ purposeOf b = .brand
  | branchMetadata m => purposeOf m.restaurantId = .branch m.brandId ∧ purposeOf m.brandId = .brand
  | menuCategory c => purposeOf c.id = .category c.restaurantId
  | menuItem i => purposeOf i.id = .item i.restaurantId ∧ InScope purposeOf i.restaurantId i.categoryId
  | modifierGroup g => purposeOf g.id = .group g.itemId
  | modifierOption o => purposeOf o.id = .option o.groupId
  | _ => True

def Db.Typed (db : Db) : Prop := ∀ row ∈ db, row.Typed purposeOf

def itemOwner (i : ItemId) : Option RestaurantId :=
  match purposeOf i with
  | .item r => some r
  | _ => none

def groupOwner (g : GroupId) : Option RestaurantId :=
  match purposeOf g with
  | .group i => itemOwner purposeOf i
  | _ => none

/-- The restaurant whose row it is. -/
def Key.owner : Key → Option RestaurantId
  | restaurant r | branchMetadata r | restaurantCuisine r _ | branchItemOverride r _ => some r
  | menuCategory c =>
    match purposeOf c with
    | .category r => some r
    | _ => none
  | menuItem i | itemTag i _ => itemOwner purposeOf i
  | modifierGroup g => groupOwner purposeOf g
  | modifierOption o =>
    match purposeOf o with
    | .option g => groupOwner purposeOf g
    | _ => none
  | outbox _ => none

/-- The two databases have the same rows of a restaurant. -/
def Agree (db db' : Db) (r : RestaurantId) : Prop :=
  ∀ row : Row, row.key.owner purposeOf = some r → (row ∈ db ↔ row ∈ db')

end

variable {purposeOf : ℕ → Purpose} {db db' : Db} {r : RestaurantId}

/-! ### What the queries select -/

namespace Row

variable {row : Row}

@[simp] theorem asBranchMetadata_eq_some {m : BranchMetadata} : row.asBranchMetadata = some m ↔ row = .branchMetadata m := by
  cases row <;> simp [asBranchMetadata]

@[simp] theorem asCategory_eq_some {c : Category} : row.asCategory = some c ↔ row = .menuCategory c := by
  cases row <;> simp [asCategory]

@[simp] theorem asItem_eq_some {i : MenuItem} : row.asItem = some i ↔ row = .menuItem i := by
  cases row <;> simp [asItem]

@[simp] theorem asGroup_eq_some {g : ModifierGroup} : row.asGroup = some g ↔ row = .modifierGroup g := by
  cases row <;> simp [asGroup]

@[simp] theorem asOption_eq_some {o : ModifierOption} : row.asOption = some o ↔ row = .modifierOption o := by
  cases row <;> simp [asOption]

@[simp] theorem asOutbox_eq_some {e : OutboxRow} : row.asOutbox = some e ↔ row = .outbox e := by
  cases row <;> simp [asOutbox]

@[simp] theorem asTag_eq_some {t : ItemId × String} :
    row.asTag = some t ↔ row = .itemTag t.1 t.2 := by
  obtain ⟨i, tag⟩ := t
  cases row <;> simp [asTag]

end Row

theorem tells_branches (p : BranchMetadata → Bool) :
    Table.Tells Row.key (fun row => row.asBranchMetadata.filter p) (·.branchLabel)
      (·.restaurantId) :=
  Table.tells_of_key (fun _ id => .branchMetadata id) fun row m h => by
    rw [Row.asBranchMetadata_eq_some.mp (Option.filter_eq_some_iff.mp h).1]
    rfl

theorem tells_categories (p : Category → Bool) :
    Table.Tells Row.key (fun row => row.asCategory.filter p) (·.rank) (·.id) :=
  Table.tells_of_key (fun _ id => .menuCategory id) fun row c h => by
    rw [Row.asCategory_eq_some.mp (Option.filter_eq_some_iff.mp h).1]
    rfl

theorem tells_items (p : MenuItem → Bool) :
    Table.Tells Row.key (fun row => row.asItem.filter p) (·.rank) (·.id) :=
  Table.tells_of_key (fun _ id => .menuItem id) fun row i h => by
    rw [Row.asItem_eq_some.mp (Option.filter_eq_some_iff.mp h).1]
    rfl

theorem tells_tags (p : ItemId × String → Bool) :
    Table.Tells Row.key (fun row => row.asTag.filter p) (·.2) (·.1) :=
  Table.tells_of_key (fun tag item => .itemTag item tag) fun row t h => by
    rw [Row.asTag_eq_some.mp (Option.filter_eq_some_iff.mp h).1]
    rfl

theorem tells_groups (p : ModifierGroup → Bool) :
    Table.Tells Row.key (fun row => row.asGroup.filter p) (·.rank) (·.id) :=
  Table.tells_of_key (fun _ id => .modifierGroup id) fun row g h => by
    rw [Row.asGroup_eq_some.mp (Option.filter_eq_some_iff.mp h).1]
    rfl

theorem tells_options (p : ModifierOption → Bool) :
    Table.Tells Row.key (fun row => row.asOption.filter p) (·.rank) (·.id) :=
  Table.tells_of_key (fun _ id => .modifierOption id) fun row o h => by
    rw [Row.asOption_eq_some.mp (Option.filter_eq_some_iff.mp h).1]
    rfl

theorem tells_cuisines (r : RestaurantId) :
    Table.Tells Row.key (fun
      | .restaurantCuisine r' c => if r' = r then some c else none
      | _ => none) (fun c : String => c) fun _ => 0 :=
  Table.tells_of_key (fun c _ => .restaurantCuisine r c) fun row c h => by
    cases row <;> simp_all [Row.key]

theorem tells_overrides (branch : RestaurantId) :
    Table.Tells Row.key (fun
      | .branchItemOverride b i => if b = branch then some i else none
      | _ => none) (fun i : ItemId => i) fun _ => 0 :=
  Table.tells_of_key (fun i _ => .branchItemOverride branch i) fun row i h => by
    cases row <;> simp_all [Row.key]

section

variable {scope : List RestaurantId}

theorem mem_categories {c : Category} :
    c ∈ db.categories scope ↔ .menuCategory c ∈ db ∧ c.restaurantId ∈ scope := by
  simp [Db.categories, Table.mem_select]

theorem mem_items {i : MenuItem} :
    i ∈ db.items scope ↔ .menuItem i ∈ db ∧ i.restaurantId ∈ scope := by
  simp [Db.items, Table.mem_select]

theorem mem_tags {items : List ItemId} {t : ItemId × String} :
    t ∈ db.tags items ↔ .itemTag t.1 t.2 ∈ db ∧ t.1 ∈ items := by
  simp [Db.tags, Table.mem_select]

theorem mem_groups {items : List ItemId} {g : ModifierGroup} :
    g ∈ db.groups items ↔ .modifierGroup g ∈ db ∧ g.itemId ∈ items := by
  simp [Db.groups, Table.mem_select]

theorem mem_options {groups : List GroupId} {o : ModifierOption} :
    o ∈ db.options groups ↔ .modifierOption o ∈ db ∧ o.groupId ∈ groups := by
  simp [Db.options, Table.mem_select]

theorem restaurant_eq_some {row : RestaurantRow} :
    db.restaurant r = some row ↔ .restaurant row ∈ db ∧ row.id = r := by
  rw [Db.restaurant, Option.bind_eq_some_iff]
  constructor
  · rintro ⟨row', hf, ha⟩
    obtain ⟨hmem, hkey⟩ := Table.find_eq_some.mp hf
    cases row' <;> cases ha
    exact ⟨hmem, Key.restaurant.inj hkey⟩
  · rintro ⟨hmem, rfl⟩
    exact ⟨_, Table.find_eq_some.mpr ⟨hmem, rfl⟩, rfl⟩

theorem branchMetadata_eq_some {m : BranchMetadata} :
    db.branchMetadata r = some m ↔ .branchMetadata m ∈ db ∧ m.restaurantId = r := by
  rw [Db.branchMetadata, Option.bind_eq_some_iff]
  constructor
  · rintro ⟨row', hf, ha⟩
    obtain ⟨hmem, hkey⟩ := Table.find_eq_some.mp hf
    cases row' <;> cases ha
    exact ⟨hmem, Key.branchMetadata.inj hkey⟩
  · rintro ⟨hmem, rfl⟩
    exact ⟨_, Table.find_eq_some.mpr ⟨hmem, rfl⟩, rfl⟩

theorem mem_branches {brand : RestaurantId} {m : BranchMetadata} :
    m ∈ db.branches brand ↔ .branchMetadata m ∈ db ∧ m.brandId = brand ∧
      ∃ row, db.restaurant m.restaurantId = some row := by
  simp [Db.branches, Table.mem_select, Option.isSome_iff_exists,
    and_assoc]

theorem mem_cuisines {c : String} : c ∈ db.cuisines r ↔ .restaurantCuisine r c ∈ db := by
  refine Table.mem_select.trans ⟨?_, fun h => ⟨_, h, if_pos rfl⟩⟩
  rintro ⟨row, hrow, h⟩
  cases row with
  | restaurantCuisine o d =>
    simp only at h
    split at h
    · next ho =>
      cases h
      rwa [← ho]
    · cases h
  | _ => cases h

theorem category_eq_some {id : CategoryId} {c : Category} :
    db.category r id = some c ↔ .menuCategory c ∈ db ∧ c.id = id ∧ c.restaurantId = r := by
  rw [Db.category, Option.filter_eq_some_iff, Option.bind_eq_some_iff, decide_eq_true_iff]
  constructor
  · rintro ⟨⟨row', hf, ha⟩, hr⟩
    obtain ⟨hmem, hkey⟩ := Table.find_eq_some.mp hf
    cases row' <;> cases ha
    exact ⟨hmem, Key.menuCategory.inj hkey, hr⟩
  · rintro ⟨hmem, rfl, hr⟩
    exact ⟨⟨_, Table.find_eq_some.mpr ⟨hmem, rfl⟩, rfl⟩, hr⟩

theorem item_eq_some {id : ItemId} {i : MenuItem} :
    db.item r id = some i ↔ .menuItem i ∈ db ∧ i.id = id ∧ i.restaurantId = r := by
  rw [Db.item, Option.filter_eq_some_iff, Option.bind_eq_some_iff, decide_eq_true_iff]
  constructor
  · rintro ⟨⟨row', hf, ha⟩, hr⟩
    obtain ⟨hmem, hkey⟩ := Table.find_eq_some.mp hf
    cases row' <;> cases ha
    exact ⟨hmem, Key.menuItem.inj hkey, hr⟩
  · rintro ⟨hmem, rfl, hr⟩
    exact ⟨⟨_, Table.find_eq_some.mpr ⟨hmem, rfl⟩, rfl⟩, hr⟩

end

/-! ### Documents see the rows of their owners -/

section

variable (hdb : db.Typed purposeOf) (hdb' : db'.Typed purposeOf) {scope : List RestaurantId}
  (hscope : ∀ r ∈ scope, Agree purposeOf db db' r)

include hdb hdb' hscope

theorem mem_congr {row : Row}
    (h : row.Typed purposeOf → ∃ r ∈ scope, row.key.owner purposeOf = some r) :
    row ∈ db ↔ row ∈ db' := by
  constructor
  · intro hmem
    obtain ⟨r, hr, ho⟩ := h (hdb row hmem)
    exact (hscope r hr row ho).mp hmem
  · intro hmem
    obtain ⟨r, hr, ho⟩ := h (hdb' row hmem)
    exact (hscope r hr row ho).mpr hmem

theorem categories_congr : db.categories scope = db'.categories scope := by
  refine Table.select_congr (tells_categories _) fun row c h => ?_
  obtain ⟨hrow, hc⟩ := Option.filter_eq_some_iff.mp h
  obtain rfl := Row.asCategory_eq_some.mp hrow
  refine mem_congr hdb hdb' hscope fun ht => ⟨c.restaurantId, of_decide_eq_true hc, ?_⟩
  have ht : purposeOf c.id = .category c.restaurantId := ht
  simp [Row.key, Key.owner, ht]

theorem items_congr : db.items scope = db'.items scope := by
  refine Table.select_congr (tells_items _) fun row i h => ?_
  obtain ⟨hrow, hi⟩ := Option.filter_eq_some_iff.mp h
  obtain rfl := Row.asItem_eq_some.mp hrow
  refine mem_congr hdb hdb' hscope fun ht => ⟨i.restaurantId, of_decide_eq_true hi, ?_⟩
  have ht : purposeOf i.id = .item i.restaurantId := ht.1
  simp [Row.key, Key.owner, itemOwner, ht]

variable {ids : List ItemId} (hids : ∀ i ∈ ids, ∃ r ∈ scope, itemOwner purposeOf i = some r)

include hids

theorem tags_congr : db.tags ids = db'.tags ids := by
  refine Table.select_congr (tells_tags _) fun row t h => ?_
  obtain ⟨hrow, ht⟩ := Option.filter_eq_some_iff.mp h
  obtain rfl := Row.asTag_eq_some.mp hrow
  exact mem_congr hdb hdb' hscope fun _ => hids t.1 (of_decide_eq_true ht)

theorem groups_congr : db.groups ids = db'.groups ids := by
  refine Table.select_congr (tells_groups _) fun row g h => ?_
  obtain ⟨hrow, hg⟩ := Option.filter_eq_some_iff.mp h
  obtain rfl := Row.asGroup_eq_some.mp hrow
  refine mem_congr hdb hdb' hscope fun ht => ?_
  obtain ⟨r, hr, ho⟩ := hids g.itemId (of_decide_eq_true hg)
  have ht : purposeOf g.id = .group g.itemId := ht
  exact ⟨r, hr, by simp [Row.key, Key.owner, groupOwner, ht, ho]⟩

omit hids in
theorem options_congr {gs : List GroupId}
    (hgs : ∀ g ∈ gs, ∃ r ∈ scope, groupOwner purposeOf g = some r) :
    db.options gs = db'.options gs := by
  refine Table.select_congr (tells_options _) fun row o h => ?_
  obtain ⟨hrow, ho⟩ := Option.filter_eq_some_iff.mp h
  obtain rfl := Row.asOption_eq_some.mp hrow
  refine mem_congr hdb hdb' hscope fun ht => ?_
  obtain ⟨r, hr, hg⟩ := hgs o.groupId (of_decide_eq_true ho)
  have ht : purposeOf o.id = .option o.groupId := ht
  exact ⟨r, hr, by simp [Row.key, Key.owner, ht, hg]⟩

end

/-- **The profile is made of the restaurant's own rows.** -/
theorem read_congr (h : Agree purposeOf db db' r) : db.read r = db'.read r := by
  have hrow : db.restaurant r = db'.restaurant r := by
    refine congrArg (·.bind Row.asRestaurant) (Table.find_congr fun row hk => h row ?_)
    rw [hk]
    rfl
  have hmeta : db.branchMetadata r = db'.branchMetadata r := by
    refine congrArg (·.bind Row.asBranchMetadata) (Table.find_congr fun row hk => h row ?_)
    rw [hk]
    rfl
  have hcuisines : db.cuisines r = db'.cuisines r := by
    refine Table.select_congr (tells_cuisines r) fun row c hc => h row ?_
    cases row <;> simp_all [Row.key, Key.owner]
  rw [Db.read, Db.read, hrow, hmeta, hcuisines]

theorem overrides_congr (h : Agree purposeOf db db' r) : db.overrides r = db'.overrides r := by
  refine Table.select_congr (tells_overrides r) fun row i hi => h row ?_
  cases row <;> simp_all [Row.key, Key.owner]

theorem itemOwner_of_mem {scope : List RestaurantId} (hdb : db.Typed purposeOf) {id : ItemId}
    (h : id ∈ (db.items scope).map (·.id)) : ∃ r ∈ scope, itemOwner purposeOf id = some r := by
  obtain ⟨i, hi, rfl⟩ := List.mem_map.mp h
  obtain ⟨hmem, hr⟩ := mem_items.mp hi
  have ht : purposeOf i.id = .item i.restaurantId := (hdb _ hmem).1
  exact ⟨_, hr, by rw [itemOwner, ht]⟩

theorem groupOwner_of_mem {scope : List RestaurantId} (hdb : db.Typed purposeOf)
    {ids : List ItemId} (hids : ∀ i ∈ ids, ∃ r ∈ scope, itemOwner purposeOf i = some r)
    {id : GroupId} (h : id ∈ (db.groups ids).map (·.id)) :
    ∃ r ∈ scope, groupOwner purposeOf id = some r := by
  obtain ⟨g, hg, rfl⟩ := List.mem_map.mp h
  obtain ⟨hmem, hi⟩ := mem_groups.mp hg
  have ht : purposeOf g.id = .group g.itemId := hdb _ hmem
  obtain ⟨r, hr, ho⟩ := hids _ hi
  refine ⟨r, hr, ?_⟩
  rw [groupOwner, ht]
  exact ho

/-- The menu rows are those of the restaurants in scope. -/
theorem menuRows_congr {scope : List RestaurantId} (hdb : db.Typed purposeOf)
    (hdb' : db'.Typed purposeOf) (h : ∀ r ∈ scope, Agree purposeOf db db' r) :
    db.menuRows scope = db'.menuRows scope := by
  have hitems := items_congr hdb hdb' h
  have hids : ∀ id ∈ (db.items scope).map (·.id), ∃ r ∈ scope, itemOwner purposeOf id = some r :=
    fun _ => itemOwner_of_mem hdb
  have hgroups := groups_congr hdb hdb' h hids
  rw [Db.menuRows, Db.menuRows, categories_congr hdb hdb' h, ← hitems, ← tags_congr hdb hdb' h hids,
    ← hgroups, ← options_congr hdb hdb' h fun id => groupOwner_of_mem hdb hids]

/-- **The menu is made of the rows in scope, and of the restaurant's overrides.** -/
theorem menu_congr {R : Restaurant} (hdb : db.Typed purposeOf) (hdb' : db'.Typed purposeOf)
    (h : ∀ r ∈ menuScope R, Agree purposeOf db db' r) : db.menu R = db'.menu R := by
  have hself : R.id ∈ menuScope R := by
    unfold menuScope
    split <;> simp
  rw [Db.menu, Db.menu, menuRows_congr hdb hdb' h, overrides_congr (h R.id hself)]

/-! ### What is read of a restaurant -/

theorem read_eq_some {R : Restaurant} : db.read r = some R ↔
    ∃ row, db.restaurant r = some row ∧ (row.kind = .branch → db.branchMetadata r ≠ none) ∧
      R = restaurantOf row (db.branchMetadata r) (db.cuisines r) := by
  unfold Db.read
  cases db.restaurant r with
  | none => simp
  | some row =>
    by_cases h : row.kind = .branch ∧ db.branchMetadata r = none
    · simp [h]
    · simp only [h, if_false, Option.some.injEq, exists_eq_left']
      constructor
      · rintro rfl
        exact ⟨fun hk hm => h ⟨hk, hm⟩, rfl⟩
      · rintro ⟨-, rfl⟩
        rfl

/-- What a restaurant's columns say about its identifier. -/
structure Restaurant.Typed (purposeOf : ℕ → Purpose) (R : Restaurant) : Prop where
  brand : R.kind = .brand → purposeOf R.id = .brand ∧ R.brandId = none
  branch : R.kind = .branch → ∃ b, R.brandId = some b ∧ purposeOf R.id = .branch b ∧
    purposeOf b = .brand

theorem restaurant_typed (hdb : db.Typed purposeOf) {row : RestaurantRow}
    (h : db.restaurant r = some row) : (row.kind = .brand → purposeOf r = .brand) ∧
      (row.kind = .branch → ∃ b, purposeOf r = .branch b ∧ purposeOf b = .brand) := by
  obtain ⟨hmem, rfl⟩ := restaurant_eq_some.mp h
  have ht := hdb _ hmem
  simp only [Row.Typed] at ht
  constructor <;> intro hk <;> simpa [hk] using ht

theorem restaurantOf_typed (hdb : db.Typed purposeOf) {row : RestaurantRow}
    (hrow : db.restaurant r = some row)
    (hmeta : row.kind = .branch → db.branchMetadata r ≠ none) (cuisines : List String) :
    (restaurantOf row (db.branchMetadata r) cuisines).id = r ∧
      (restaurantOf row (db.branchMetadata r) cuisines).Typed purposeOf := by
  obtain ⟨hbrand, hbranch⟩ := restaurant_typed hdb hrow
  obtain ⟨hmem, rfl⟩ := restaurant_eq_some.mp hrow
  refine ⟨rfl, fun hk => ⟨hbrand hk, ?_⟩, fun hk => ?_⟩
  · rcases hm : db.branchMetadata row.id with _ | m
    · rfl
    · obtain ⟨hmem', hid⟩ := branchMetadata_eq_some.mp hm
      have ht := (hdb _ hmem').1
      rw [hid, hbrand hk] at ht
      cases ht
  · obtain ⟨b, hb, hbb⟩ := hbranch hk
    obtain ⟨m, hm⟩ := Option.ne_none_iff_exists'.mp (hmeta hk)
    obtain ⟨hmem', hid⟩ := branchMetadata_eq_some.mp hm
    have ht := (hdb _ hmem').1
    rw [hid, hb] at ht
    cases ht
    exact ⟨m.brandId, by simp [restaurantOf, hm], hb, hbb⟩

theorem read_typed (hdb : db.Typed purposeOf) {R : Restaurant} (h : db.read r = some R) :
    R.id = r ∧ R.Typed purposeOf := by
  obtain ⟨row, hrow, hmeta, rfl⟩ := read_eq_some.mp h
  exact restaurantOf_typed hdb hrow hmeta _

end Catalog
