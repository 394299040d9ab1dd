/-
catalog_db: its rows, its declared constraints, and what a statement writes.

Identifiers are uuid4s, here numbers: their text order is the order of the numbers.  All
tables are one table of rows, keyed by the row's table and primary key, so that a write
names the row that it locks.

* `Row`, `Key` — the rows and their primary keys;
* `Write` — an insert, an update of some columns, a delete, each of one row;
* `Db.Valid` — the foreign keys and unique indexes;
* the queries of the adapter: ordered selections (`Db.categories`, `Db.items`, …).
-/
import SmartFoodOps.Lib.Keyed
import Mathlib.Data.String.Basic

open Keyed

namespace Catalog

abbrev RestaurantId := ℕ

abbrev CategoryId := ℕ

abbrev ItemId := ℕ

abbrev GroupId := ℕ

abbrev OptionId := ℕ

abbrev Time := ℕ

/-! ### Rows -/

inductive Kind
  | brand
  | branch
  deriving DecidableEq, Repr

inductive RestaurantStatus
  | opened
  | paused
  deriving DecidableEq, Repr

abbrev Hours := List (String × List String)

structure RestaurantRow where
  id : RestaurantId
  ownerUserId : String
  name : String
  kind : Kind
  deriving DecidableEq

structure BranchMetadata where
  restaurantId : RestaurantId
  brandId : RestaurantId
  branchLabel : String
  city : String
  lat : Option Rat
  lon : Option Rat
  status : RestaurantStatus := .opened
  hours : Option Hours
  timezone : String
  deriving DecidableEq

structure Category where
  id : CategoryId
  restaurantId : RestaurantId
  name : String
  rank : ℤ
  deriving DecidableEq

structure MenuItem where
  id : ItemId
  restaurantId : RestaurantId
  categoryId : CategoryId
  name : String
  description : Option String
  priceCents : ℤ
  currency : String
  available : Bool
  rank : ℤ
  deriving DecidableEq

structure ModifierGroup where
  id : GroupId
  itemId : ItemId
  name : String
  minSelect : ℤ
  maxSelect : ℤ
  rank : ℤ
  deriving DecidableEq

structure ModifierOption where
  id : OptionId
  groupId : GroupId
  name : String
  priceDeltaCents : ℤ
  rank : ℤ
  deriving DecidableEq

/-! ### Documents -/

structure OptionDoc where
  id : OptionId
  name : String
  priceDeltaCents : ℤ
  rank : ℤ
  deriving DecidableEq

structure GroupDoc where
  id : GroupId
  name : String
  minSelect : ℤ
  maxSelect : ℤ
  rank : ℤ
  options : List OptionDoc
  deriving DecidableEq

/-- Inherited from the brand, or editable here. -/
inductive Source
  | base
  | own
  deriving DecidableEq, Repr

structure ItemDoc where
  id : ItemId
  categoryId : CategoryId
  name : String
  description : Option String
  priceCents : ℤ
  currency : String
  available : Bool
  rank : ℤ
  tags : List String
  modifierGroups : List GroupDoc
  source : Option Source
  deriving DecidableEq

structure CategoryDoc where
  id : CategoryId
  name : String
  rank : ℤ
  items : List ItemDoc
  deriving DecidableEq

abbrev Menu := List CategoryDoc

structure Profile where
  ownerUserId : String
  name : String
  city : Option String
  cuisines : List String
  status : Option RestaurantStatus
  lat : Option Rat
  lon : Option Rat
  hours : Option Hours
  timezone : Option String
  kind : Kind
  brandId : Option RestaurantId
  branchLabel : Option String
  deriving DecidableEq

inductive EventType
  | restaurantCreated
  | restaurantUpdated
  | restaurantPaused
  | restaurantResumed
  | categoryAdded
  | categoryUpdated
  | categoryDeleted
  | itemAdded
  | itemUpdated
  | itemDeleted
  deriving DecidableEq, Repr

structure OutboxRow where
  id : ℕ
  aggregateId : RestaurantId
  eventType : EventType
  /-- The payload: the profile, and the menu. -/
  profile : Profile
  menu : Menu
  occurredAt : Time
  deriving DecidableEq

/-! ### The table of all rows -/

inductive Row
  | restaurant (r : RestaurantRow)
  | branchMetadata (m : BranchMetadata)
  | restaurantCuisine (restaurant : RestaurantId) (cuisine : String)
  | menuCategory (c : Category)
  | menuItem (i : MenuItem)
  | itemTag (item : ItemId) (tag : String)
  | modifierGroup (g : ModifierGroup)
  | modifierOption (o : ModifierOption)
  | branchItemOverride (branch : RestaurantId) (item : ItemId)
  | outbox (e : OutboxRow)
  deriving DecidableEq

inductive Key
  | restaurant (id : RestaurantId)
  | branchMetadata (restaurant : RestaurantId)
  | restaurantCuisine (restaurant : RestaurantId) (cuisine : String)
  | menuCategory (id : CategoryId)
  | menuItem (id : ItemId)
  | itemTag (item : ItemId) (tag : String)
  | modifierGroup (id : GroupId)
  | modifierOption (id : OptionId)
  | branchItemOverride (branch : RestaurantId) (item : ItemId)
  | outbox (id : ℕ)
  deriving DecidableEq

namespace Row

def key : Row → Key
  | restaurant r => .restaurant r.id
  | branchMetadata m => .branchMetadata m.restaurantId
  | restaurantCuisine r c => .restaurantCuisine r c
  | menuCategory c => .menuCategory c.id
  | menuItem i => .menuItem i.id
  | itemTag i t => .itemTag i t
  | modifierGroup g => .modifierGroup g.id
  | modifierOption o => .modifierOption o.id
  | branchItemOverride b i => .branchItemOverride b i
  | outbox e => .outbox e.id

/-- The foreign keys. -/
def references : Row → List Key
  | restaurant _ | outbox _ => []
  | branchMetadata m => [.restaurant m.restaurantId, .restaurant m.brandId]
  | restaurantCuisine r _ => [.restaurant r]
  | menuCategory c => [.restaurant c.restaurantId]
  | menuItem i => [.restaurant i.restaurantId, .menuCategory i.categoryId]
  | itemTag i _ => [.menuItem i]
  | modifierGroup g => [.menuItem g.itemId]
  | modifierOption o => [.modifierGroup o.groupId]
  | branchItemOverride b i => [.restaurant b, .menuItem i]

/-- `uq_restaurants_owner_brand` and `uq_branch_metadata_label`. -/
def unique : Row → Option (String ⊕ (RestaurantId × String))
  | restaurant r => if r.kind = .brand then some (.inl r.ownerUserId) else none
  | branchMetadata m => some (.inr (m.brandId, m.branchLabel))
  | _ => none

def asRestaurant : Row → Option RestaurantRow
  | restaurant r => some r
  | _ => none

def asBranchMetadata : Row → Option BranchMetadata
  | branchMetadata m => some m
  | _ => none

def asCategory : Row → Option Category
  | menuCategory c => some c
  | _ => none

def asItem : Row → Option MenuItem
  | menuItem i => some i
  | _ => none

def asTag : Row → Option (ItemId × String)
  | itemTag i t => some (i, t)
  | _ => none

def asGroup : Row → Option ModifierGroup
  | modifierGroup g => some g
  | _ => none

def asOption : Row → Option ModifierOption
  | modifierOption o => some o
  | _ => none

def asOutbox : Row → Option OutboxRow
  | outbox e => some e
  | _ => none

end Row

abbrev Db := Table Row Key Row.key

/-! ### Writes -/

/-- The columns of a restaurant that a change names. -/
structure RestaurantChanges where
  name : Option String := none
  lat : Option Rat := none
  lon : Option Rat := none
  hours : Option Hours := none
  timezone : Option String := none
  status : Option RestaurantStatus := none
  deriving DecidableEq

structure CategoryChanges where
  name : Option String := none
  rank : Option ℤ := none
  deriving DecidableEq

structure ItemChanges where
  categoryId : Option CategoryId := none
  name : Option String := none
  /-- A description can be cleared. -/
  description : Option (Option String) := none
  priceCents : Option ℤ := none
  currency : Option String := none
  available : Option Bool := none
  rank : Option ℤ := none
  deriving DecidableEq

inductive Patch
  | name (name : String)
  | branchOwned (changes : RestaurantChanges)
  | category (changes : CategoryChanges)
  | item (changes : ItemChanges)
  /-- `updated_at`, which nobody reads. -/
  | touch
  deriving DecidableEq

def Row.patch : Patch → Row → Row
  | .name n, restaurant r => restaurant { r with name := n }
  | .branchOwned c, branchMetadata m =>
    branchMetadata
      { m with
        lat := c.lat.orElse fun _ => m.lat
        lon := c.lon.orElse fun _ => m.lon
        hours := c.hours.orElse fun _ => m.hours
        timezone := c.timezone.getD m.timezone
        status := c.status.getD m.status }
  | .category c, menuCategory r =>
    menuCategory { r with name := c.name.getD r.name, rank := c.rank.getD r.rank }
  | .item c, menuItem i =>
    menuItem
      { i with
        categoryId := c.categoryId.getD i.categoryId
        name := c.name.getD i.name
        description := c.description.getD i.description
        priceCents := c.priceCents.getD i.priceCents
        currency := c.currency.getD i.currency
        available := c.available.getD i.available
        rank := c.rank.getD i.rank }
  | _, row => row

theorem Row.key_patch (p : Patch) (row : Row) : (row.patch p).key = row.key := by
  cases p <;> cases row <;> rfl

inductive Write
  | insert (row : Row)
  | update (key : Key) (p : Patch)
  | delete (key : Key)
  deriving DecidableEq

/-- The row that a write locks. -/
def Write.key : Write → Key
  | insert row => row.key
  | update k _ => k
  | delete k => k

def Write.apply : Write → Db → Db
  | insert row, db => db.put row
  | update k p, db => db.modify k (Row.patch p) (Row.key_patch p)
  | delete k, db => db.erase k

/-! ### Constraints -/

/-- The declared constraints.  A foreign key is checked with its statement and its locks
keep it true to the commit; here the commit checks it. -/
structure Db.Valid (db : Db) : Prop where
  foreign : ∀ row ∈ db.rows, ∀ k ∈ row.references, db.find k ≠ none
  unique : ∀ row ∈ db.rows, ∀ row' ∈ db.rows, row.unique ≠ none → row.unique = row'.unique →
    row = row'

instance (db : Db) : Decidable db.Valid :=
  decidable_of_iff ((∀ row ∈ db.rows, ∀ k ∈ row.references, db.find k ≠ none) ∧
    ∀ row ∈ db.rows, ∀ row' ∈ db.rows, row.unique ≠ none → row.unique = row'.unique →
      row = row') ⟨fun h => ⟨h.1, h.2⟩, fun h => ⟨h.1, h.2⟩⟩

/-! ### Queries -/

namespace Db

variable (db : Db)

def restaurant (id : RestaurantId) : Option RestaurantRow :=
  (db.find (.restaurant id)).bind Row.asRestaurant

def branchMetadata (id : RestaurantId) : Option BranchMetadata :=
  (db.find (.branchMetadata id)).bind Row.asBranchMetadata

/-- The branches of a brand, by label. -/
def branches (brand : RestaurantId) : List BranchMetadata :=
  (db.select (fun row => row.asBranchMetadata.filter fun m => decide (m.brandId = brand))
    (·.branchLabel) (·.restaurantId)).filter fun m => (db.restaurant m.restaurantId).isSome

def brandOfOwner (owner : String) : Option RestaurantRow :=
  (db.rows.filterMap Row.asRestaurant).find? fun r => r.ownerUserId = owner ∧ r.kind = .brand

def cuisines (id : RestaurantId) : List String :=
  db.select (fun
    | .restaurantCuisine r c => if r = id then some c else none
    | _ => none) (fun c : String => c) fun _ => 0

def category (restaurant : RestaurantId) (id : CategoryId) : Option Category :=
  ((db.find (.menuCategory id)).bind Row.asCategory).filter fun c => c.restaurantId = restaurant

def item (restaurant : RestaurantId) (id : ItemId) : Option MenuItem :=
  ((db.find (.menuItem id)).bind Row.asItem).filter fun i => i.restaurantId = restaurant

def categoryItems (restaurant : RestaurantId) (id : CategoryId) : ℕ :=
  ((db.rows.filterMap Row.asItem).filter fun i =>
    i.categoryId = id ∧ i.restaurantId = restaurant).length

/-- `get_override_ids`. -/
def overrides (branch : RestaurantId) : List ItemId :=
  db.select (fun
    | .branchItemOverride b i => if b = branch then some i else none
    | _ => none) (fun i : ItemId => i) fun _ => 0

/-- The queries of `get_menu_rows` and `get_pricing_rows`. -/
def categories (scope : List RestaurantId) : List Category :=
  db.select (fun row => row.asCategory.filter fun c => c.restaurantId ∈ scope) (·.rank) (·.id)

def items (scope : List RestaurantId) : List MenuItem :=
  db.select (fun row => row.asItem.filter fun i => i.restaurantId ∈ scope) (·.rank) (·.id)

def tags (items : List ItemId) : List (ItemId × String) :=
  db.select (fun row => row.asTag.filter fun t => t.1 ∈ items) (·.2) (·.1)

def groups (items : List ItemId) : List ModifierGroup :=
  db.select (fun row => row.asGroup.filter fun g => g.itemId ∈ items) (·.rank) (·.id)

def options (groups : List GroupId) : List ModifierOption :=
  db.select (fun row => row.asOption.filter fun o => o.groupId ∈ groups) (·.rank) (·.id)

def outbox : List OutboxRow := db.rows.filterMap Row.asOutbox

end Db

end Catalog
