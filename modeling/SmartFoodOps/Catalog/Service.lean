/-
CatalogService: the mutations and the reads, statement by statement.

A mutation writes its rows, stages a full-state event for every restaurant that it
touches (`publish`), commits, and deletes the menu-cache keys of those restaurants.

* `Session` — programs of statements against catalog_db;
* `read`, `menuSnapshot`, `publish` — the three-write rule, with its fan-out for brands;
* `Call.body` — what each mutation does before it publishes;
* `Db.read`, `Db.menu`, `Db.document` — the same reads, from one snapshot.

The answers of the mutations, beyond what they publish, are left out.
-/
import SmartFoodOps.Catalog.Store
import SmartFoodOps.Lib.Program

open Program

namespace Catalog

inductive CatalogError
  | restaurantNotFound
  | categoryNotFound
  | categoryNotEmpty
  | itemNotFound
  | nothingToUpdate
  | branchLimitReached
  | branchOwnedField (field : String)
  | branchOnlyAction
  | brandOwnedField (field : String)
  deriving DecidableEq, Repr

/-- What a value is drawn for: the time, or a uuid4. -/
inductive Purpose
  | now
  | brand
  | branch (brand : RestaurantId)
  | category (restaurant : RestaurantId)
  | item (restaurant : RestaurantId)
  | group (item : ItemId)
  | option (group : GroupId)
  | event
  deriving DecidableEq, Repr

/-- A uuid4 is never drawn twice, so what it is drawn for is a function of it. -/
def Drawn (purposeOf : ℕ → Purpose) : Purpose → ℕ → Prop
  | .now, _ => True
  | p, u => purposeOf u = p

instance (purposeOf : ℕ → Purpose) (p : Purpose) (u : ℕ) : Decidable (Drawn purposeOf p u) := by
  unfold Drawn
  split <;> infer_instance

abbrev Session := Prog Db Write CatalogError Purpose

abbrev select {α : Type} [DecidableEq α] (q : Db → α) : Session α := Prog.select q

/-! ### Statements -/

/-- `INSERT`; a primary key that is taken is an IntegrityError. -/
def insertRows (rows : List Row) : Session Unit :=
  Prog.execute fun db =>
    if (∀ row ∈ rows, db.find row.key = none) ∧ (rows.map Row.key).Nodup then
      some ((), rows.map .insert)
    else none

/-- `UPDATE` of one row, if it is there: whether it was. -/
def updateRow (there : Db → Bool) (k : Key) (p : Patch) : Session Bool :=
  Prog.execute fun db => some (if there db then (true, [.update k p]) else (false, []))

/-- `DELETE` of the rows that the statement sees. -/
def deleteRows (keys : Db → List Key) : Session Unit :=
  Prog.execute fun db => some ((), (keys db).map .delete)

def ifSome {α : Type} (x : Option α) (f : α → Session Unit) : Session Unit :=
  match x with
  | none => return ()
  | some a => f a

/-! ### Restaurants -/

structure Restaurant where
  id : RestaurantId
  ownerUserId : String
  name : String
  cuisines : List String
  lat : Option Rat
  lon : Option Rat
  hours : Option Hours
  city : Option String
  status : Option RestaurantStatus
  timezone : Option String
  kind : Kind
  brandId : Option RestaurantId
  branchLabel : Option String
  deriving DecidableEq

def Restaurant.displayName (r : Restaurant) : String :=
  match r.branchLabel with
  | none | some "" => r.name
  | some label => r.name ++ " — " ++ label

/-- A brand has no metadata row, so every branch-owned value of a brand is `none`. -/
def restaurantOf (row : RestaurantRow) (metadata : Option BranchMetadata)
    (cuisines : List String) : Restaurant where
  id := row.id
  ownerUserId := row.ownerUserId
  name := row.name
  cuisines := cuisines
  lat := metadata.bind (·.lat)
  lon := metadata.bind (·.lon)
  hours := metadata.bind (·.hours)
  city := metadata.map (·.city)
  status := metadata.map (·.status)
  timezone := metadata.map (·.timezone)
  kind := row.kind
  brandId := metadata.map (·.brandId)
  branchLabel := metadata.map (·.branchLabel)

def Restaurant.profile (r : Restaurant) : Profile where
  ownerUserId := r.ownerUserId
  name := r.name
  city := r.city
  cuisines := r.cuisines
  status := r.status
  lat := r.lat
  lon := r.lon
  hours := r.hours
  timezone := r.timezone
  kind := r.kind
  brandId := if r.kind = .brand then some r.id else r.brandId
  branchLabel := r.branchLabel

def getRestaurant (id : RestaurantId) : Session (Option (RestaurantRow × Option BranchMetadata)) :=
  select fun db => (db.restaurant id).map fun row => (row, db.branchMetadata id)

def read (id : RestaurantId) : Session Restaurant := do
  match ← getRestaurant id with
  | none => .fail .restaurantNotFound
  | some (row, metadata) =>
    -- a branch that is missing its metadata row
    if row.kind = .branch ∧ metadata = none then .fail .restaurantNotFound
    else do
      let cuisines ← select fun db => db.cuisines id
      return restaurantOf row metadata cuisines

/-! ### The menu -/

def itemDict (item : MenuItem) (tags : List (ItemId × String)) (groups : List ModifierGroup)
    (options : List ModifierOption) : ItemDoc where
  id := item.id
  categoryId := item.categoryId
  name := item.name
  description := item.description
  priceCents := item.priceCents
  currency := item.currency
  available := item.available
  rank := item.rank
  tags := tags.map (·.2)
  modifierGroups := groups.map fun g =>
    { id := g.id
      name := g.name
      minSelect := g.minSelect
      maxSelect := g.maxSelect
      rank := g.rank
      options := (options.filter fun o => o.groupId = g.id).map fun o =>
        ⟨o.id, o.name, o.priceDeltaCents, o.rank⟩ }
  source := none

/-- Whose menu rows make up the restaurant's menu. -/
def menuScope (r : Restaurant) : List RestaurantId :=
  match r.brandId with
  | some brand => [brand, r.id]
  | none => [r.id]

structure MenuRows where
  categories : List Category
  items : List MenuItem
  tags : List (ItemId × String)
  groups : List ModifierGroup
  options : List ModifierOption
  deriving DecidableEq

def getMenuRows (scope : List RestaurantId) : Session MenuRows := do
  let categories ← select fun db => db.categories scope
  let items ← select fun db => db.items scope
  if items = [] then return ⟨categories, items, [], [], []⟩
  else do
    let tags ← select fun db => db.tags (items.map (·.id))
    let groups ← select fun db => db.groups (items.map (·.id))
    if groups = [] then return ⟨categories, items, tags, groups, []⟩
    else do
      let options ← select fun db => db.options (groups.map (·.id))
      return ⟨categories, items, tags, groups, options⟩

/-- An item of the menu, with its source, and not available where the branch has 86'd it. -/
def menuEntry (r : Restaurant) (overrides : List ItemId) (rows : MenuRows) (item : MenuItem) :
    ItemDoc :=
  let itemGroups := rows.groups.filter fun g => g.itemId = item.id
  let itemOptions := itemGroups.flatMap fun g => rows.options.filter fun o => o.groupId = g.id
  let entry := itemDict item (rows.tags.filter fun t => t.1 = item.id) itemGroups itemOptions
  { entry with
    source := some (if item.restaurantId = r.id then .own else .base)
    available := if item.id ∈ overrides then false else entry.available }

def menuTree (r : Restaurant) (overrides : List ItemId) (rows : MenuRows) : Menu :=
  rows.categories.map fun c =>
    ⟨c.id, c.name, c.rank,
      (rows.items.filter fun i => i.categoryId = c.id).map (menuEntry r overrides rows)⟩

def getOverrideIds (branch : RestaurantId) : Session (List ItemId) :=
  select fun db => db.overrides branch

def menuSnapshot (r : Restaurant) : Session Menu := do
  let overrides ← (if r.brandId.isSome then getOverrideIds r.id else pure [])
  let rows ← getMenuRows (menuScope r)
  return menuTree r overrides rows

/-! ### The three-write rule -/

/-- One aggregate's touch and full-state event. -/
def stageOne (r : Restaurant) (event : EventType) (now : Time) : Session Unit := do
  let menu ← menuSnapshot r
  let _ ← updateRow (fun db => (db.restaurant r.id).isSome) (.restaurant r.id) .touch
  let id ← .draw .event .ret
  insertRows [.outbox ⟨id, r.id, event, r.profile, menu, now⟩]

/-- The fan-out of a brand to its branches. -/
def stageBranches (event : EventType) (now : Time) : List RestaurantId → Session Unit
  | [] => return ()
  | id :: rest => do
    let branch ← read id
    stageOne branch event now
    stageBranches event now rest

/-- Stage the events of a mutation: the restaurants whose menus are to be invalidated. -/
def publish (id : RestaurantId) (event : EventType) : Session (List RestaurantId) := do
  let r ← read id
  let now ← .draw .now .ret
  stageOne r event now
  if r.kind ≠ .brand then return [id]
  else do
    -- of the rows, only the identifiers are used
    let rows ← select fun db => (db.branches id).map (·.restaurantId)
    stageBranches event now rows
    return id :: rows

/-! ### Reads from one snapshot -/

namespace Db

def read (db : Db) (id : RestaurantId) : Option Restaurant :=
  match db.restaurant id with
  | none => none
  | some row =>
    if row.kind = .branch ∧ db.branchMetadata id = none then none
    else some (restaurantOf row (db.branchMetadata id) (db.cuisines id))

def menuRows (db : Db) (scope : List RestaurantId) : MenuRows where
  categories := db.categories scope
  items := db.items scope
  tags := db.tags ((db.items scope).map (·.id))
  groups := db.groups ((db.items scope).map (·.id))
  options := db.options ((db.groups ((db.items scope).map (·.id))).map (·.id))

def menu (db : Db) (r : Restaurant) : Menu :=
  menuTree r (if r.brandId.isSome then db.overrides r.id else []) (db.menuRows (menuScope r))

end Db

/-- The document of `get_menu`. -/
structure MenuDoc where
  restaurantId : RestaurantId
  name : String
  displayName : String
  brandId : Option RestaurantId
  status : Option RestaurantStatus
  menu : Menu
  deriving DecidableEq

/-- A render, from one snapshot. -/
def Db.document (db : Db) (id : RestaurantId) : Option MenuDoc :=
  (db.read id).map fun r => ⟨r.id, r.name, r.displayName, r.brandId, r.status, db.menu r⟩

/-! ### Mutations -/

/-- What a mutation publishes.  `create_restaurant` is the one that deletes no cache keys. -/
structure Target where
  restaurant : RestaurantId
  event : EventType
  invalidates : Bool := true
  deriving DecidableEq

/-- The kind of a new restaurant, with what only a branch has. -/
inductive NewKind
  | brand
  | branch (brandId : RestaurantId) (branchLabel : String)
  deriving DecidableEq, Repr

/-- What the owner says about a place. -/
structure Place where
  city : String
  lat : Option Rat
  lon : Option Rat
  hours : Option Hours
  deriving DecidableEq

def insertRestaurant (ownerUserId name : String) (place : Place) (timezone : String)
    (kind : NewKind) : Session RestaurantId :=
  match kind with
  | .brand => do
    let id ← .draw .brand .ret
    insertRows [.restaurant ⟨id, ownerUserId, name, .brand⟩]
    return id
  | .branch brandId branchLabel => do
    let id ← .draw (.branch brandId) .ret
    insertRows [.restaurant ⟨id, ownerUserId, name, .branch⟩]
    insertRows [.branchMetadata
      ⟨id, brandId, branchLabel, place.city, place.lat, place.lon, .opened, place.hours, timezone⟩]
    return id

/-- `s or d`: an empty text counts as none. -/
def textOr (s : Option String) (d : String) : String :=
  match s with
  | none | some "" => d
  | some s => s

/-- Replace the set. -/
def setCuisines (id : RestaurantId) (cuisines : List String) : Session Unit := do
  deleteRows fun db => (db.cuisines id).map (.restaurantCuisine id)
  insertRows (cuisines.map (.restaurantCuisine id))

def createRestaurant (defaultTimezone ownerUserId name : String) (place : Place)
    (cuisines : List String) (timezone branchLabel : Option String) :
    Session (Option Target) := do
  match ← select fun db => db.brandOfOwner ownerUserId with
  | some _ => return none
  | none => do
    let zone := textOr timezone defaultTimezone
    let brandId ← insertRestaurant ownerUserId name place zone .brand
    setCuisines brandId cuisines
    let firstBranch ← insertRestaurant ownerUserId name place zone
      (.branch brandId (textOr branchLabel "Main"))
    setCuisines firstBranch cuisines
    return some ⟨brandId, .restaurantCreated, false⟩

/-- `set(changes) & set(BRANCH_OWNED_COLUMNS)`, sorted. -/
def RestaurantChanges.branchOwned (c : RestaurantChanges) : List String :=
  (if c.hours.isSome then ["hours"] else []) ++ (if c.lat.isSome then ["lat"] else []) ++
    (if c.lon.isSome then ["lon"] else []) ++ (if c.status.isSome then ["status"] else []) ++
      if c.timezone.isSome then ["timezone"] else []

def updateName (id : RestaurantId) (name : String) : Session Unit := do
  let _ ← updateRow (fun db => (db.restaurant id).isSome) (.restaurant id) (.name name)

def updateBranchOwned (id : RestaurantId) (c : RestaurantChanges) : Session Unit := do
  let _ ← updateRow (fun db => (db.branchMetadata id).isSome) (.branchMetadata id)
    (.branchOwned c)

/-- Each change goes to the table that owns it. -/
def updateRestaurantRow (id : RestaurantId) (c : RestaurantChanges) : Session Unit := do
  ifSome c.name (updateName id)
  if c.branchOwned = [] then return () else updateBranchOwned id c

/-- `copy_profile_to_branches`. -/
def copyNameToBranches (brand : RestaurantId) (name : String) : Session Unit :=
  Prog.execute fun db => some ((), (db.branches brand).map fun m =>
    .update (.restaurant m.restaurantId) (.name name))

/-- The field that a change of this restaurant must not name. -/
def ownedElsewhere (kind : Kind) (c : RestaurantChanges) (cuisines : Option (List String)) :
    Option CatalogError :=
  match kind with
  | .branch =>
    if c.name.isSome then some (.brandOwnedField "name")
    else if cuisines.isSome then some (.brandOwnedField "cuisines")
    else none
  | .brand => c.branchOwned.head?.map .branchOwnedField

def updateRestaurant (id : RestaurantId) (c : RestaurantChanges)
    (cuisines : Option (List String)) : Session (Option Target) :=
  if c = {} ∧ cuisines = none then .fail .nothingToUpdate
  else do
    let target ← read id
    match ownedElsewhere target.kind c cuisines with
    | some e => .fail e
    | none => do
      updateRestaurantRow id c
      ifSome cuisines (setCuisines id)
      ifSome (if target.kind = .brand then c.name else none) (copyNameToBranches id)
      return some ⟨id, .restaurantUpdated, true⟩

def maxBranches : ℕ := 20

def createBranch (defaultTimezone : String) (brandId : RestaurantId) (branchLabel : String)
    (place : Place) (timezone : Option String) : Session (Option Target) := do
  let brand ← read brandId
  if brand.kind ≠ .brand then .fail .restaurantNotFound
  else do
    let existing ← select fun db => (db.branches brandId).find? fun m => m.branchLabel = branchLabel
    if existing.isSome then return none
    else do
      let siblings ← select fun db => db.branches brandId
      if maxBranches ≤ siblings.length then .fail .branchLimitReached
      else do
        let inherited := (siblings.head?.map (·.timezone)).getD defaultTimezone
        let branchId ← insertRestaurant brand.ownerUserId brand.name place
          (textOr timezone inherited) (.branch brandId branchLabel)
        setCuisines branchId brand.cuisines
        return some ⟨branchId, .restaurantCreated, true⟩

/-- The per-branch 86 of a base item: a row is there or it is not. -/
def setOverride (branchId : RestaurantId) (itemId : ItemId) (available : Bool) : Session Unit :=
  if available then
    deleteRows fun db =>
      if db.find (.branchItemOverride branchId itemId) = none then []
      else [.branchItemOverride branchId itemId]
  else
    -- ON CONFLICT DO NOTHING
    Prog.execute fun db => some ((),
      if db.find (.branchItemOverride branchId itemId) = none then
        [.insert (.branchItemOverride branchId itemId)]
      else [])

def setBaseItemAvailability (branchId : RestaurantId) (itemId : ItemId) (available : Bool) :
    Session (Option Target) := do
  let branch ← read branchId
  match branch.brandId with
  | none => .fail .itemNotFound
  | some brandId => do
    if (← select fun db => db.item brandId itemId) = none then .fail .itemNotFound
    else do
      setOverride branchId itemId available
      return some ⟨branchId, .itemUpdated, true⟩

def setStatus (id : RestaurantId) (status : RestaurantStatus) : Session (Option Target) := do
  let target ← read id
  if target.kind = .brand then .fail .branchOnlyAction
  else do
    updateRestaurantRow id { status := some status }
    return some ⟨id, if status = .paused then .restaurantPaused else .restaurantResumed, true⟩

/-! #### Categories -/

def addCategory (restaurantId : RestaurantId) (name : String) (rank : ℤ) :
    Session (Option Target) := do
  if (← getRestaurant restaurantId) = none then .fail .restaurantNotFound
  else do
    let id ← .draw (.category restaurantId) .ret
    insertRows [.menuCategory ⟨id, restaurantId, name, rank⟩]
    return some ⟨restaurantId, .categoryAdded, true⟩

def updateCategory (restaurantId : RestaurantId) (categoryId : CategoryId)
    (c : CategoryChanges) : Session (Option Target) :=
  if c = {} then .fail .nothingToUpdate
  else do
    let there ← updateRow (fun db => (db.category restaurantId categoryId).isSome)
      (.menuCategory categoryId) (.category c)
    if there then return some ⟨restaurantId, .categoryUpdated, true⟩
    else .fail .categoryNotFound

def deleteCategory (restaurantId : RestaurantId) (categoryId : CategoryId) :
    Session (Option Target) := do
  if (← select fun db => db.category restaurantId categoryId) = none then .fail .categoryNotFound
  else do
    if 0 < (← select fun db => db.categoryItems restaurantId categoryId) then
      .fail .categoryNotEmpty
    else do
      deleteRows fun db =>
        if db.category restaurantId categoryId = none then [] else [.menuCategory categoryId]
      return some ⟨restaurantId, .categoryDeleted, true⟩

/-! #### Items -/

structure ItemFields where
  name : String
  description : Option String
  priceCents : ℤ
  currency : String
  available : Bool
  rank : ℤ
  deriving DecidableEq

structure ModifierOptionIn where
  name : String
  priceDeltaCents : ℤ
  rank : ℤ
  deriving DecidableEq

structure ModifierGroupIn where
  name : String
  minSelect : ℤ
  maxSelect : ℤ
  rank : ℤ
  options : List ModifierOptionIn
  deriving DecidableEq

/-- A branch files items under its own categories or its brand's. -/
def categoryInScope (r : Restaurant) (categoryId : CategoryId) : Session Bool := do
  if (← select fun db => db.category r.id categoryId).isSome then return true
  else
    match r.brandId with
    | none => return false
    | some brandId => return (← select fun db => db.category brandId categoryId).isSome

def setItemTags (itemId : ItemId) (tags : List String) : Session Unit := do
  deleteRows fun db => (db.tags [itemId]).map fun t => .itemTag t.1 t.2
  insertRows (tags.map (.itemTag itemId))

def drawOptions (groupId : GroupId) : List ModifierOptionIn → Session (List ModifierOption)
  | [] => return []
  | o :: rest => do
    let id ← .draw (.option groupId) .ret
    let options ← drawOptions groupId rest
    return ⟨id, groupId, o.name, o.priceDeltaCents, o.rank⟩ :: options

def drawGroups (itemId : ItemId) :
    List ModifierGroupIn → Session (List ModifierGroup × List ModifierOption)
  | [] => return ([], [])
  | g :: rest => do
    let id ← .draw (.group itemId) .ret
    let options ← drawOptions id g.options
    let (groups, more) ← drawGroups itemId rest
    return (⟨id, itemId, g.name, g.minSelect, g.maxSelect, g.rank⟩ :: groups, options ++ more)

def insertModifierGroups (itemId : ItemId) (groups : List ModifierGroupIn) : Session Unit := do
  let (groups, options) ← drawGroups itemId groups
  insertRows (groups.map .modifierGroup)
  insertRows (options.map .modifierOption)

def deleteItemModifiers (itemId : ItemId) : Session Unit := do
  deleteRows fun db =>
    (db.options ((db.groups [itemId]).map (·.id))).map fun o => .modifierOption o.id
  deleteRows fun db => (db.groups [itemId]).map fun g => .modifierGroup g.id

/-- `_read_item`. -/
def readItem (restaurantId : RestaurantId) (itemId : ItemId) : Session ItemDoc := do
  match ← select fun db => db.item restaurantId itemId with
  | none => .fail .itemNotFound
  | some item => do
    let tags ← select fun db => db.tags [itemId]
    let groups ← select fun db => db.groups [itemId]
    let options ← select fun db => db.options (groups.map (·.id))
    return itemDict item tags groups options

def addItem (restaurantId : RestaurantId) (categoryId : CategoryId) (fields : ItemFields)
    (tags : List String) (modifierGroups : List ModifierGroupIn) : Session (Option Target) := do
  let restaurant ← read restaurantId
  if ¬ (← categoryInScope restaurant categoryId) then .fail .categoryNotFound
  else do
    let id ← .draw (.item restaurantId) .ret
    insertRows [.menuItem ⟨id, restaurantId, categoryId, fields.name, fields.description,
      fields.priceCents, fields.currency, fields.available, fields.rank⟩]
    setItemTags id tags
    insertModifierGroups id modifierGroups
    let _ ← readItem restaurantId id
    return some ⟨restaurantId, .itemAdded, true⟩

/-- The target of a move must be in scope too. -/
def guardMove (restaurantId : RestaurantId) : Option CategoryId → Session Unit
  | none => return ()
  | some categoryId => do
    let mover ← read restaurantId
    if ← categoryInScope mover categoryId then return () else .fail .categoryNotFound

def patchItem (restaurantId : RestaurantId) (itemId : ItemId) (c : ItemChanges) : Session Unit :=
  if c = {} then return ()
  else do
    let _ ← updateRow (fun db => (db.item restaurantId itemId).isSome) (.menuItem itemId) (.item c)

def replaceModifierGroups (itemId : ItemId) (groups : List ModifierGroupIn) : Session Unit := do
  deleteItemModifiers itemId
  insertModifierGroups itemId groups

def updateItem (restaurantId : RestaurantId) (itemId : ItemId) (c : ItemChanges)
    (tags : Option (List String)) (modifierGroups : Option (List ModifierGroupIn)) :
    Session (Option Target) :=
  if c = {} ∧ tags = none ∧ modifierGroups = none then .fail .nothingToUpdate
  else do
    let _ ← readItem restaurantId itemId
    guardMove restaurantId c.categoryId
    patchItem restaurantId itemId c
    ifSome tags (setItemTags itemId)
    ifSome modifierGroups (replaceModifierGroups itemId)
    let _ ← readItem restaurantId itemId
    return some ⟨restaurantId, .itemUpdated, true⟩

def deleteItem (restaurantId : RestaurantId) (itemId : ItemId) : Session (Option Target) := do
  if (← select fun db => db.item restaurantId itemId) = none then .fail .itemNotFound
  else do
    deleteItemModifiers itemId
    deleteRows fun db => (db.tags [itemId]).map fun t => .itemTag t.1 t.2
    deleteRows fun db => if db.find (.menuItem itemId) = none then [] else [.menuItem itemId]
    return some ⟨restaurantId, .itemDeleted, true⟩

end Catalog
