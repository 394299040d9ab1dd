/-
Every mutation writes only rows of the restaurant that it announces, or of its branches.

* `Write.Typed`, `Write.Local`, `Write.Quiet` — what writes keep: the columns of every row
  say whose it is; the documents of all other restaurants; all documents;
* `Write.Plain`, `Write.Edits` — what the mutations of a restaurant that is there write:
  its own rows, and the names of its branches;
* `document_elsewhere` — local writes leave the documents of the others;
* `Within` — a program whose writes all are of one kind, with a rule for each statement;
* `body_local` — every mutation is local to the restaurant that it announces.
-/
import SmartFoodOps.Catalog.Documents
import SmartFoodOps.Catalog.Interleaving

open Keyed Program

namespace Catalog

variable {purposeOf : ℕ → Purpose} {db : Db} {r : RestaurantId} {w : Write} {ws : List Write}

/-! ### Writes keep the types -/

/-- The columns that say what a restaurant is. -/
def Key.identity : Key → Bool
  | restaurant _ | branchMetadata _ | restaurantCuisine _ _ => true
  | _ => false

/-- A row of a new restaurant. -/
def Write.Founds : Write → Prop
  | insert (.restaurant _) | insert (.branchMetadata _) => True
  | _ => False

/-- A write that leaves every name, brand and cuisine. -/
def Write.Keeps : Write → Prop
  | update (.branchMetadata _) (.branchOwned _) => True
  | w => w.key.identity = false

theorem Write.Keeps.not_founds (h : w.Keeps) : ¬ w.Founds := by
  cases w with
  | insert row => cases row <;> first | exact id | cases h
  | _ => exact id

section

variable (purposeOf)

/-- A write of rows whose columns say whose they are.  Restaurants are never deleted. -/
def Write.Typed : Write → Prop
  | insert row => row.Typed purposeOf
  | update (.menuItem i) (.item c) =>
    ∀ c', c.categoryId = some c' → ∀ r, purposeOf i = .item r → InScope purposeOf r c'
  | delete (.restaurant _) | delete (.branchMetadata _) => False
  | _ => True

/-- A write of a row of the restaurant, or of a branch of it. -/
def Write.Local (r : RestaurantId) (w : Write) : Prop :=
  ∃ o, w.key.owner purposeOf = some o ∧ (o = r ∨ purposeOf o = .branch r)

/-- A write of a row of the restaurant, which is there already. -/
def Write.Own (r : RestaurantId) (w : Write) : Prop := w.key.owner purposeOf = some r ∧ ¬ w.Founds

/-- What the mutations of a menu and of a place write. -/
def Write.Plain (r : RestaurantId) (w : Write) : Prop := w.key.owner purposeOf = some r ∧ w.Keeps

/-- What the mutations of a restaurant write. -/
inductive Write.Edits (r : RestaurantId) : Write → Prop
  | own {w : Write} (h : w.Own purposeOf r) : Edits r w
  | branchName {o : RestaurantId} {name : String} (h : purposeOf o = .branch r) :
      Edits r (.update (.restaurant o) (.name name))

end

theorem Write.Plain.own (h : w.Plain purposeOf r) : w.Own purposeOf r :=
  ⟨h.1, h.2.not_founds⟩

theorem Write.Edits.isLocal (h : w.Edits purposeOf r) : w.Local purposeOf r := by
  cases h with
  | own h => exact ⟨r, h.1, .inl rfl⟩
  | branchName h => exact ⟨_, rfl, .inr h⟩

/-- A touch, or an event. -/
def Write.Quiet : Write → Prop
  | update _ .touch => True
  | insert (.outbox _) => True
  | _ => False

section

variable (purposeOf)

/-- A touch of the restaurant or of a branch of it, or an event. -/
inductive Write.Tells (r : RestaurantId) : Write → Prop
  | touch {o : RestaurantId} (h : o = r ∨ purposeOf o = .branch r) :
      Tells r (.update (.restaurant o) .touch)
  | event {e : OutboxRow} : Tells r (.insert (.outbox e))

end

theorem Write.Tells.quiet (h : w.Tells purposeOf r) : w.Quiet := by
  cases h <;> trivial

theorem mem_insert {x row : Row} :
    row ∈ (Write.insert x).apply db ↔ row = x ∨ row ∈ db ∧ row.key ≠ x.key := Table.mem_put

theorem mem_update {row : Row} {k : Key} {p : Patch} : row ∈ (Write.update k p).apply db ↔
    row ∈ db ∧ row.key ≠ k ∨ ∃ x ∈ db, x.key = k ∧ row = x.patch p :=
  Table.mem_modify (Row.key_patch p)

theorem mem_delete {row : Row} {k : Key} :
    row ∈ (Write.delete k).apply db ↔ row ∈ db ∧ row.key ≠ k := Table.mem_erase

theorem patch_typed {row : Row} {p : Patch} (h : row.Typed purposeOf)
    (hp : (Write.update row.key p).Typed purposeOf) : (row.patch p).Typed purposeOf := by
  cases row with
  | menuItem i =>
    cases p with
    | item c =>
      refine ⟨h.1, ?_⟩
      show InScope purposeOf i.restaurantId (c.categoryId.getD i.categoryId)
      rcases hc : c.categoryId with _ | c'
      · exact h.2
      · exact hp c' hc _ h.1
    | _ => exact h
  | _ => cases p <;> exact h

theorem Write.Typed.apply (hw : w.Typed purposeOf) (hdb : db.Typed purposeOf) :
    (w.apply db).Typed purposeOf := by
  intro row hrow
  cases w with
  | insert x =>
    rcases mem_insert.mp hrow with rfl | ⟨hmem, -⟩
    · exact hw
    · exact hdb row hmem
  | update k p =>
    rcases mem_update.mp hrow with ⟨hmem, -⟩ | ⟨x, hmem, rfl, rfl⟩
    · exact hdb row hmem
    · exact patch_typed (hdb x hmem) hw
  | delete k => exact hdb row (mem_delete.mp hrow).1

theorem typed_applyWrites (hws : ∀ w ∈ ws, w.Typed purposeOf) (hdb : db.Typed purposeOf) :
    (applyWrites ws db).Typed purposeOf :=
  applyAll_induction (I := Db.Typed purposeOf) (W := Write.Typed purposeOf)
    (fun _ _ hw hdb => hw.apply hdb) hws hdb

theorem applyWrites_cons (w : Write) (ws : List Write) (db : Db) :
    applyWrites (w :: ws) db = applyWrites ws (w.apply db) := rfl

theorem applyWrites_append (ws ws' : List Write) (db : Db) :
    applyWrites (ws ++ ws') db = applyWrites ws' (applyWrites ws db) := applyAll_append ..

/-! ### Writes keep the other rows -/

theorem mem_apply_of_ne {row : Row} (h : row.key ≠ w.key) : row ∈ w.apply db ↔ row ∈ db := by
  cases w with
  | insert x =>
    rw [mem_insert]
    constructor
    · rintro (rfl | ⟨hmem, -⟩)
      · exact absurd rfl h
      · exact hmem
    · exact fun hmem => .inr ⟨hmem, h⟩
  | update k p =>
    rw [mem_update]
    constructor
    · rintro (⟨hmem, -⟩ | ⟨x, -, hk, rfl⟩)
      · exact hmem
      · exact absurd ((Row.key_patch p x).trans hk) h
    · exact fun hmem => .inl ⟨hmem, h⟩
  | delete k =>
    rw [mem_delete]
    exact and_iff_left h

theorem mem_applyWrites {row : Row}
    (h : ∀ w ∈ ws, ∀ db : Db, row ∈ w.apply db ↔ row ∈ db) : row ∈ applyWrites ws db ↔ row ∈ db :=
  applyAll_induction (I := fun db' => row ∈ db' ↔ row ∈ db)
    (W := fun w : Write => ∀ db : Db, row ∈ w.apply db ↔ row ∈ db)
    (fun _ db' hw hdb => (hw db').trans hdb) h Iff.rfl

theorem agree_of_local {o : RestaurantId} (hws : ∀ w ∈ ws, w.Local purposeOf r) (ho : o ≠ r)
    (hb : purposeOf o ≠ .branch r) : Agree purposeOf db (applyWrites ws db) o := by
  intro row hrow
  refine (mem_applyWrites fun w hw db => mem_apply_of_ne fun hk => ?_).symm
  obtain ⟨o', ho', h⟩ := hws w hw
  rw [← hk, hrow] at ho'
  cases ho'
  exact h.elim ho hb

/-- A touch changes no row, and an event is nobody's. -/
theorem Write.Quiet.mem (hw : w.Quiet) {row : Row} (h : ∀ e, row ≠ .outbox e) :
    row ∈ w.apply db ↔ row ∈ db := by
  unfold Write.Quiet at hw
  split at hw
  · next k =>
    have hid : ∀ x : Row, x.patch .touch = x := fun x => by cases x <;> rfl
    rw [mem_update]
    constructor
    · rintro (⟨hmem, -⟩ | ⟨x, hmem, -, hx⟩)
      · exact hmem
      · rw [hx, hid]
        exact hmem
    · intro hmem
      by_cases hk : row.key = k
      · exact .inr ⟨row, hmem, hk, (hid row).symm⟩
      · exact .inl ⟨hmem, hk⟩
  · next e =>
    refine mem_apply_of_ne fun hk => ?_
    cases row <;> first | exact h _ rfl | cases hk
  · exact hw.elim

theorem agree_of_quiet {o : RestaurantId} (hws : ∀ w ∈ ws, w.Quiet) :
    Agree purposeOf db (applyWrites ws db) o := by
  intro row hrow
  refine (mem_applyWrites fun w hw db => (hws w hw).mem fun e he => ?_).symm
  rw [he] at hrow
  cases hrow

theorem Write.Quiet.typed (hw : w.Quiet) : w.Typed purposeOf := by
  unfold Write.Quiet at hw
  split at hw
  · next k => cases k <;> trivial
  · trivial
  · exact hw.elim

/-- **Local writes leave the documents of the others.** -/
theorem document_elsewhere {o : RestaurantId} (hdb : db.Typed purposeOf)
    (htyped : ∀ w ∈ ws, w.Typed purposeOf) (hws : ∀ w ∈ ws, w.Local purposeOf r) (ho : o ≠ r)
    (hb : purposeOf o ≠ .branch r) : (applyWrites ws db).read o = db.read o ∧
      ∀ R, db.read o = some R → (applyWrites ws db).menu R = db.menu R := by
  have hself : Agree purposeOf db (applyWrites ws db) o := agree_of_local hws ho hb
  refine ⟨(read_congr hself).symm, fun R hR => ?_⟩
  refine (menu_congr hdb (typed_applyWrites htyped hdb) fun q hq => ?_).symm
  obtain ⟨rfl, hbrand, hbranch⟩ := read_typed hdb hR
  unfold menuScope at hq
  cases hk : R.kind with
  | brand =>
    rw [(hbrand hk).2] at hq
    obtain rfl := List.mem_singleton.mp hq
    exact hself
  | branch =>
    obtain ⟨b, hbid, hpb, hbb⟩ := hbranch hk
    rw [hbid] at hq
    rcases List.mem_cons.mp hq with rfl | hq
    · refine agree_of_local hws ?_ ?_
      · rintro rfl
        exact hb hpb
      · rw [hbb]
        nofun
    · obtain rfl := List.mem_singleton.mp hq
      exact hself

/-- Quiet writes leave every document. -/
theorem document_quiet (hdb : db.Typed purposeOf) (hws : ∀ w ∈ ws, w.Quiet) (o : RestaurantId)
    (R : Restaurant) :
    (applyWrites ws db).read o = db.read o ∧ (applyWrites ws db).menu R = db.menu R := by
  have hagree : ∀ q, Agree purposeOf db (applyWrites ws db) q := fun _ => agree_of_quiet hws
  refine ⟨(read_congr (hagree o)).symm, ?_⟩
  exact (menu_congr hdb (typed_applyWrites (fun w hw => (hws w hw).typed) hdb)
    fun q _ => hagree q).symm

/-! ### Programs whose writes are of one kind -/

/-- Whatever the statements see, all writes are typed and `L`, and the result satisfies `Q`. -/
def Within (purposeOf : ℕ → Purpose) (L : Write → Prop) {α : Type} (p : Session α)
    (Q : α → Prop) : Prop :=
  ∀ ws, (∀ w ∈ ws, L w) → Ensures (Drawn purposeOf) (Db.Typed purposeOf)
    (fun w => w.Typed purposeOf ∧ L w) p (fun a ws' => Q a ∧ ∀ w ∈ ws', L w) ws

section

variable {α β : Type} {L : Write → Prop} {Q : α → Prop} {R : β → Prop}

theorem Within.bind {p : Session α} {f : α → Session β} (hp : Within purposeOf L p Q)
    (hf : ∀ a, Q a → Within purposeOf L (f a) R) : Within purposeOf L (p >>= f) R := by
  intro ws hws
  refine ensures_bind.mpr ((hp ws hws).mono ?_)
  rintro a ws' ⟨ha, hws'⟩
  exact hf a ha ws' hws'

theorem Within.ret {a : α} (h : Q a) : Within purposeOf L (pure a) Q := fun _ hws => ⟨h, hws⟩

theorem Within.fail {e : CatalogError} : Within purposeOf L (.fail e) Q := fun _ _ => trivial

theorem Within.mono {Q' : α → Prop} {p : Session α} (hp : Within purposeOf L p Q)
    (h : ∀ a, Q a → Q' a) : Within purposeOf L p Q' :=
  fun ws hws => (hp ws hws).mono fun a _ ha => ⟨h a ha.1, ha.2⟩

theorem Within.weaken {L' : Write → Prop} {p : Session α} (hp : Within purposeOf L p Q)
    (h : ∀ w, L w → L' w) : Within purposeOf L' p Q := by
  intro ws hws
  rw [← List.append_nil ws]
  refine Ensures.append (((hp [] (List.forall_mem_nil _)).weaken fun w hw =>
    ⟨hw.1, h w hw.2⟩).mono ?_)
  rintro a ws' ⟨ha, hws'⟩
  refine ⟨ha, fun w hw => ?_⟩
  rcases List.mem_append.mp hw with hw | hw
  · exact hws w hw
  · exact h w (hws' w hw)

theorem within_select [DecidableEq α] {q : Db → α}
    (h : ∀ db : Db, db.Typed purposeOf → Q (q db)) : Within purposeOf L (select q) Q :=
  fun _ hws => ensures_select fun db hdb => ⟨h db hdb, hws⟩

theorem within_execute [DecidableEq α] {q : Db → Option (α × List Write)}
    (h : ∀ (db : Db) a w, db.Typed purposeOf → q db = some (a, w) →
      (∀ x ∈ w, x.Typed purposeOf ∧ L x) ∧ Q a) : Within purposeOf L (Prog.execute q) Q := by
  intro ws hws
  refine ensures_execute fun db a w hdb hq => ?_
  obtain ⟨hw, ha⟩ := h db a w hdb hq
  refine ⟨hw, ha, fun x hx => ?_⟩
  rcases List.mem_append.mp hx with hx | hx
  · exact hws x hx
  · exact (hw x hx).2

theorem within_draw (P : Purpose) :
    Within purposeOf L (.draw P .ret) fun u => Drawn purposeOf P u := fun _ hws _ hu => ⟨hu, hws⟩

theorem within_ifSome {x : Option α} {f : α → Session Unit}
    (h : ∀ a, x = some a → Within purposeOf L (f a) fun _ => True) :
    Within purposeOf L (ifSome x f) fun _ => True := by
  cases x with
  | none => exact .ret trivial
  | some a => exact h a rfl

theorem within_insertRows {rows : List Row}
    (h : ∀ row ∈ rows, row.Typed purposeOf ∧ L (.insert row)) :
    Within purposeOf L (insertRows rows) fun _ => True := by
  refine within_execute fun db a w _ hq => ⟨fun x hx => ?_, trivial⟩
  split at hq
  · cases hq
    obtain ⟨row, hrow, rfl⟩ := List.mem_map.mp hx
    exact h row hrow
  · cases hq

theorem within_updateRow {there : Db → Bool} {k : Key} {p : Patch}
    (h : ∀ db : Db, db.Typed purposeOf → there db →
      (Write.update k p).Typed purposeOf ∧ L (.update k p)) :
    Within purposeOf L (updateRow there k p) fun _ => True := by
  refine within_execute fun db a w hdb hq => ⟨fun x hx => ?_, trivial⟩
  cases ht : there db with
  | true =>
    rw [ht] at hq
    cases hq
    obtain rfl := List.mem_singleton.mp hx
    exact h db hdb ht
  | false =>
    rw [ht] at hq
    cases hq
    cases hx

theorem within_deleteRows {keys : Db → List Key}
    (h : ∀ db : Db, db.Typed purposeOf → ∀ k ∈ keys db,
      (Write.delete k).Typed purposeOf ∧ L (.delete k)) :
    Within purposeOf L (deleteRows keys) fun _ => True := by
  refine within_execute fun db a w hdb hq => ⟨fun x hx => ?_, trivial⟩
  cases hq
  obtain ⟨k, hk, rfl⟩ := List.mem_map.mp hx
  exact h db hdb k hk

end

/-! ### The reads -/

section

variable {L : Write → Prop}

theorem within_getRestaurant (r : RestaurantId) : Within purposeOf L (getRestaurant r) fun o =>
    ∀ row metadata, o = some (row, metadata) →
      ∃ db : Db, db.Typed purposeOf ∧ db.restaurant r = some row ∧ db.branchMetadata r = metadata := by
  refine within_select fun db hdb row metadata h => ?_
  obtain ⟨row', hrow, he⟩ := Option.map_eq_some_iff.mp h
  cases he
  exact ⟨db, hdb, hrow, rfl⟩

/-- What is read of a restaurant says what its identifier was drawn for. -/
theorem within_read (r : RestaurantId) :
    Within purposeOf L (read r) fun R => R.id = r ∧ R.Typed purposeOf := by
  refine (within_getRestaurant r).bind fun o ho => ?_
  rcases o with _ | ⟨row, metadata⟩
  · exact .fail
  · obtain ⟨db, hdb, hrow, rfl⟩ := ho row metadata rfl
    show Within purposeOf L (if row.kind = .branch ∧ db.branchMetadata r = none then _ else _) _
    split
    · exact .fail
    · next hmeta =>
      refine (within_select (Q := fun _ => True) fun _ _ => trivial).bind fun cuisines _ => ?_
      exact .ret (restaurantOf_typed hdb hrow (fun hk hm => hmeta ⟨hk, hm⟩) cuisines)

theorem within_getMenuRows (scope : List RestaurantId) :
    Within purposeOf L (getMenuRows scope) fun _ => True := by
  refine (within_select (Q := fun _ => True) fun _ _ => trivial).bind fun categories _ => ?_
  refine (within_select (Q := fun _ => True) fun _ _ => trivial).bind fun items _ => ?_
  split
  · exact .ret trivial
  refine (within_select (Q := fun _ => True) fun _ _ => trivial).bind fun tags _ => ?_
  refine (within_select (Q := fun _ => True) fun _ _ => trivial).bind fun groups _ => ?_
  split
  · exact .ret trivial
  refine (within_select (Q := fun _ => True) fun _ _ => trivial).bind fun options _ => ?_
  exact .ret trivial

theorem within_menuSnapshot (R : Restaurant) :
    Within purposeOf L (menuSnapshot R) fun _ => True := by
  refine Within.bind (Q := fun _ => True) ?_ fun overrides _ => ?_
  · split
    · exact within_select fun _ _ => trivial
    · exact .ret trivial
  · exact (within_getMenuRows _).bind fun rows _ => .ret trivial

/-- The category that a guard has found in scope is in scope. -/
theorem within_categoryInScope {R : Restaurant} (hR : R.Typed purposeOf) (c : CategoryId) :
    Within purposeOf L (categoryInScope R c) fun b => b = true → InScope purposeOf R.id c := by
  have hcategory : ∀ r, Within purposeOf L (select fun db => db.category r c)
      fun o => o.isSome → purposeOf c = .category r := by
    refine fun r => within_select fun db hdb h => ?_
    obtain ⟨row, hrow⟩ := Option.isSome_iff_exists.mp h
    obtain ⟨hmem, rfl, rfl⟩ := category_eq_some.mp hrow
    exact hdb _ hmem
  refine (hcategory R.id).bind fun o ho => ?_
  split
  · next h => exact .ret fun _ => ⟨R.id, ho h, .inl rfl⟩
  · split
    · exact .ret nofun
    · next b hb =>
      refine (hcategory b).bind fun o' ho' => .ret fun h => ⟨b, ho' h, .inr ?_⟩
      cases hk : R.kind with
      | brand =>
        rw [(hR.brand hk).2] at hb
        cases hb
      | branch =>
        obtain ⟨b', hb', hp, -⟩ := hR.branch hk
        rw [hb] at hb'
        cases hb'
        exact hp

theorem within_readItem (r : RestaurantId) (i : ItemId) :
    Within purposeOf L (readItem r i) fun _ => purposeOf i = .item r := by
  refine Within.bind (Q := fun o => o.isSome → purposeOf i = .item r) (within_select ?_)
    fun o ho => ?_
  · intro db hdb h
    obtain ⟨row, hrow⟩ := Option.isSome_iff_exists.mp h
    obtain ⟨hmem, rfl, rfl⟩ := item_eq_some.mp hrow
    exact (hdb _ hmem).1
  · split
    · exact .fail
    · refine (within_select (Q := fun _ => True) fun _ _ => trivial).bind fun tags _ => ?_
      refine (within_select (Q := fun _ => True) fun _ _ => trivial).bind fun groups _ => ?_
      refine (within_select (Q := fun _ => True) fun _ _ => trivial).bind fun options _ => ?_
      exact .ret (ho rfl)

end

/-! ### To publish is quiet -/

theorem within_stageOne {R : Restaurant} (hR : R.id = r ∨ purposeOf R.id = .branch r)
    (event : EventType) (now : Time) :
    Within purposeOf (Write.Tells purposeOf r) (stageOne R event now) fun _ => True := by
  refine (within_menuSnapshot R).bind fun menu _ => ?_
  refine (within_updateRow fun _ _ _ => ?_).bind fun _ _ => ?_
  · exact ⟨trivial, .touch hR⟩
  refine (within_draw .event).bind fun id _ => ?_
  refine within_insertRows fun row hrow => ?_
  obtain rfl := List.mem_singleton.mp hrow
  exact ⟨trivial, .event⟩

theorem within_stageBranches (event : EventType) (now : Time) {rows : List RestaurantId}
    (hrows : ∀ id ∈ rows, purposeOf id = .branch r) :
    Within purposeOf (Write.Tells purposeOf r) (stageBranches event now rows) fun _ => True := by
  induction rows with
  | nil => exact .ret trivial
  | cons id rest ih =>
    obtain ⟨hid, hrest⟩ := List.forall_mem_cons.mp hrows
    refine (within_read id).bind fun branch hbranch => ?_
    rw [← hbranch.1] at hid
    exact (within_stageOne (.inr hid) event now).bind fun _ _ => ih hrest

/-- A publication touches the restaurant and its branches. -/
theorem within_fanOut (r : RestaurantId) (event : EventType) :
    Within purposeOf (Write.Tells purposeOf r) (publish r event) fun _ => True := by
  refine (within_read r).bind fun R hR => ?_
  refine (within_draw .now).bind fun now _ => ?_
  refine (within_stageOne (.inl hR.1) event now).bind fun _ _ => ?_
  split
  · exact .ret trivial
  · refine (within_select (Q := fun rows => ∀ id ∈ rows, purposeOf id = .branch r) ?_).bind
      fun rows hrows => (within_stageBranches event now hrows).bind fun _ _ => .ret trivial
    intro db hdb id hid
    obtain ⟨m, hm, rfl⟩ := List.mem_map.mp hid
    obtain ⟨hmem, hb, -⟩ := mem_branches.mp hm
    have ht : purposeOf m.restaurantId = .branch m.brandId := (hdb _ hmem).1
    rwa [hb] at ht

theorem within_publish (r : RestaurantId) (event : EventType) :
    Within purposeOf Write.Quiet (publish r event) fun _ => True :=
  (within_fanOut r event).weaken fun _ => Write.Tells.quiet

/-! ### The mutations are local -/

section

variable {id : RestaurantId}

/-- A row of a restaurant that is `r`, or a branch of `r`. -/
theorem local_of_owner (hid : id = r ∨ purposeOf id = .branch r)
    (hw : w.key.owner purposeOf = some id) : w.Local purposeOf r := ⟨id, hw, hid⟩

theorem within_setCuisines (id : RestaurantId) (cuisines : List String) :
    Within purposeOf (Write.Own purposeOf id) (setCuisines id cuisines) fun _ => True := by
  refine (within_deleteRows fun db _ k hk => ?_).bind fun _ _ => within_insertRows fun row hrow => ?_
  · obtain ⟨c, -, rfl⟩ := List.mem_map.mp hk
    exact ⟨trivial, rfl, not_false⟩
  · obtain ⟨c, -, rfl⟩ := List.mem_map.mp hrow
    exact ⟨trivial, rfl, not_false⟩

theorem within_updateBranchOwned (r : RestaurantId) (c : RestaurantChanges) :
    Within purposeOf (Write.Plain purposeOf r) (updateBranchOwned r c) fun _ => True := by
  refine (within_updateRow fun _ _ _ => ?_).bind fun _ _ => .ret trivial
  exact ⟨trivial, rfl, trivial⟩

theorem within_updateRestaurantRow (r : RestaurantId) (c : RestaurantChanges) :
    Within purposeOf (Write.Own purposeOf r) (updateRestaurantRow r c) fun _ => True := by
  refine (within_ifSome fun name _ => ?_).bind fun _ _ => ?_
  · refine (within_updateRow fun _ _ _ => ?_).bind fun _ _ => .ret trivial
    exact ⟨trivial, rfl, id⟩
  · split
    · exact .ret trivial
    · exact (within_updateBranchOwned r c).weaken fun _ => Write.Plain.own

theorem within_copyNameToBranches (brand : RestaurantId) (name : String) :
    Within purposeOf (Write.Edits purposeOf brand) (copyNameToBranches brand name)
      fun _ => True := by
  refine within_execute fun db a w hdb hq => ⟨fun x hx => ?_, trivial⟩
  cases hq
  obtain ⟨m, hm, rfl⟩ := List.mem_map.mp hx
  obtain ⟨hmem, hb, -⟩ := mem_branches.mp hm
  have ht : purposeOf m.restaurantId = .branch m.brandId := (hdb _ hmem).1
  rw [hb] at ht
  exact ⟨trivial, .branchName ht⟩

/-- The writes of a mutation on a known restaurant, all of one kind, and its announcement;
`b` says whether it deletes cache keys. -/
abbrev Announces (purposeOf : ℕ → Purpose) (L : Write → Prop) (b : Bool) (r : RestaurantId)
    (p : Session (Option Target)) : Prop :=
  Within purposeOf L p fun t => ∀ target ∈ t, target.invalidates = b ∧ target.restaurant = r

theorem announced {L : Write → Prop} {event : EventType} {b : Bool} :
    Announces purposeOf L b r (pure (some ⟨r, event, b⟩)) :=
  .ret fun target ht => by
    cases ht
    exact ⟨rfl, rfl⟩

theorem announces_updateRestaurant (r : RestaurantId) (c : RestaurantChanges)
    (cuisines : Option (List String)) :
    Announces purposeOf (Write.Edits purposeOf r) true r (updateRestaurant r c cuisines) := by
  unfold updateRestaurant
  split
  · exact .fail
  refine (within_read r).bind fun R _ => ?_
  split
  · exact .fail
  refine ((within_updateRestaurantRow r c).weaken fun _ => .own).bind fun _ _ => ?_
  refine (within_ifSome fun cuisines _ =>
    (within_setCuisines r cuisines).weaken fun _ => .own).bind fun _ _ => ?_
  refine (within_ifSome fun name _ => within_copyNameToBranches r name).bind fun _ _ => ?_
  exact announced

theorem announces_setBaseItemAvailability (b : RestaurantId) (i : ItemId) (available : Bool) :
    Announces purposeOf (Write.Plain purposeOf b) true b (setBaseItemAvailability b i available) := by
  refine (within_read b).bind fun R _ => ?_
  split
  · exact .fail
  refine (within_select (Q := fun _ => True) fun _ _ => trivial).bind fun o _ => ?_
  split
  · exact .fail
  refine Within.bind (Q := fun _ => True) ?_ fun _ _ => announced
  unfold setOverride
  split
  · refine within_deleteRows fun db _ k hk => ?_
    split at hk
    · cases hk
    · obtain rfl := List.mem_singleton.mp hk
      exact ⟨trivial, rfl, rfl⟩
  · refine within_execute fun db a w _ hq => ⟨fun x hx => ?_, trivial⟩
    cases hq
    split at hx
    · obtain rfl := List.mem_singleton.mp hx
      exact ⟨trivial, rfl, rfl⟩
    · cases hx

theorem announces_setStatus (r : RestaurantId) (status : RestaurantStatus) :
    Announces purposeOf (Write.Plain purposeOf r) true r (setStatus r status) := by
  refine (within_read r).bind fun R _ => ?_
  split
  · exact .fail
  · refine Within.bind (Q := fun _ => True) ?_ fun _ _ => announced
    -- a change of the status is a change of the metadata
    exact (within_updateBranchOwned r _)

theorem announces_addCategory (r : RestaurantId) (name : String) (rank : ℤ) :
    Announces purposeOf (Write.Plain purposeOf r) true r (addCategory r name rank) := by
  refine (within_getRestaurant r).bind fun o _ => ?_
  split
  · exact .fail
  refine (within_draw (.category r)).bind fun id hid => ?_
  have hid : purposeOf id = .category r := hid
  refine (within_insertRows fun row hrow => ?_).bind fun _ _ => announced
  obtain rfl := List.mem_singleton.mp hrow
  exact ⟨hid, by simp [Write.key, Row.key, Key.owner, hid], rfl⟩

/-- A category that a statement sees as the restaurant's is the restaurant's. -/
theorem local_category (hdb : db.Typed purposeOf) {c : CategoryId}
    (h : (db.category r c).isSome) : Key.owner purposeOf (.menuCategory c) = some r := by
  obtain ⟨row, hrow⟩ := Option.isSome_iff_exists.mp h
  obtain ⟨hmem, rfl, rfl⟩ := category_eq_some.mp hrow
  have ht : purposeOf row.id = .category row.restaurantId := hdb _ hmem
  simp [Key.owner, ht]

theorem announces_updateCategory (r : RestaurantId) (id : CategoryId) (c : CategoryChanges) :
    Announces purposeOf (Write.Plain purposeOf r) true r (updateCategory r id c) := by
  unfold updateCategory
  split
  · exact .fail
  refine (within_updateRow fun db hdb h => ?_).bind fun there _ => ?_
  · exact ⟨trivial, ⟨(local_category hdb h), rfl⟩⟩
  · split
    · exact announced
    · exact .fail

theorem announces_deleteCategory (r : RestaurantId) (id : CategoryId) :
    Announces purposeOf (Write.Plain purposeOf r) true r (deleteCategory r id) := by
  refine (within_select (Q := fun _ => True) fun _ _ => trivial).bind fun o _ => ?_
  split
  · exact .fail
  refine (within_select (Q := fun _ => True) fun _ _ => trivial).bind fun count _ => ?_
  split
  · exact .fail
  refine (within_deleteRows fun db hdb k hk => ?_).bind fun _ _ => announced
  split at hk
  · cases hk
  · next hne =>
    obtain rfl := List.mem_singleton.mp hk
    exact ⟨trivial, ⟨(local_category hdb (Option.isSome_iff_ne_none.mpr hne)), rfl⟩⟩

end

/-! #### Items -/

section

variable {i : ItemId} (hi : purposeOf i = .item r)

include hi

theorem owner_item : itemOwner purposeOf i = some r := by rw [itemOwner, hi]

theorem within_setItemTags (tags : List String) :
    Within purposeOf (Write.Plain purposeOf r) (setItemTags i tags) fun _ => True := by
  refine (within_deleteRows fun db _ k hk => ?_).bind fun _ _ => within_insertRows fun row hrow => ?_
  · obtain ⟨t, ht, rfl⟩ := List.mem_map.mp hk
    obtain rfl := List.mem_singleton.mp (mem_tags.mp ht).2
    exact ⟨trivial, ⟨(owner_item hi), rfl⟩⟩
  · obtain ⟨t, -, rfl⟩ := List.mem_map.mp hrow
    exact ⟨trivial, ⟨(owner_item hi), rfl⟩⟩

theorem owner_group {g : GroupId} (hg : purposeOf g = .group i) :
    groupOwner purposeOf g = some r := by rw [groupOwner, hg]; exact owner_item hi

theorem owner_option {g : GroupId} (hg : purposeOf g = .group i) {o : OptionId}
    (ho : purposeOf o = .option g) : Key.owner purposeOf (.modifierOption o) = some r := by
  simp [Key.owner, ho, owner_group hi hg]

omit hi in
/-- The groups of an item are typed, so they and their options are the restaurant's. -/
theorem group_of_item (hdb : db.Typed purposeOf) {g : ModifierGroup} (hg : g ∈ db.groups [i]) :
    purposeOf g.id = .group i := by
  obtain ⟨hmem, hitem⟩ := mem_groups.mp hg
  have ht : purposeOf g.id = .group g.itemId := hdb _ hmem
  rwa [List.mem_singleton.mp hitem] at ht

theorem within_deleteItemModifiers :
    Within purposeOf (Write.Plain purposeOf r) (deleteItemModifiers i) fun _ => True := by
  refine (within_deleteRows fun db hdb k hk => ?_).bind fun _ _ =>
    within_deleteRows fun db hdb k hk => ?_
  · obtain ⟨o, ho, rfl⟩ := List.mem_map.mp hk
    obtain ⟨hmem, hgroup⟩ := mem_options.mp ho
    obtain ⟨g, hg, hgo⟩ := List.mem_map.mp hgroup
    have ht : purposeOf o.id = .option o.groupId := hdb _ hmem
    rw [← hgo] at ht
    exact ⟨trivial, ⟨(owner_option hi (group_of_item hdb hg) ht), rfl⟩⟩
  · obtain ⟨g, hg, rfl⟩ := List.mem_map.mp hk
    exact ⟨trivial, ⟨(owner_group hi (group_of_item hdb hg)), rfl⟩⟩

omit hi in
theorem within_drawOptions {L : Write → Prop} (g : GroupId) (options : List ModifierOptionIn) :
    Within purposeOf L (drawOptions g options)
      fun os => ∀ o ∈ os, o.groupId = g ∧ purposeOf o.id = .option g := by
  induction options with
  | nil => exact .ret nofun
  | cons o rest ih =>
    refine (within_draw (.option g)).bind fun id hid => ?_
    have hid : purposeOf id = .option g := hid
    refine ih.bind fun os hos => .ret fun x hx => ?_
    rcases List.mem_cons.mp hx with rfl | hx
    · exact ⟨rfl, hid⟩
    · exact hos x hx

omit hi in
theorem within_drawGroups {L : Write → Prop} (i : ItemId) (groups : List ModifierGroupIn) :
    Within purposeOf L (drawGroups i groups) fun rows =>
      (∀ g ∈ rows.1, g.itemId = i ∧ purposeOf g.id = .group i) ∧
        ∀ o ∈ rows.2, purposeOf o.id = .option o.groupId ∧ purposeOf o.groupId = .group i := by
  induction groups with
  | nil => exact .ret ⟨nofun, nofun⟩
  | cons g rest ih =>
    refine (within_draw (.group i)).bind fun id hid => ?_
    have hid : purposeOf id = .group i := hid
    refine (within_drawOptions id g.options).bind fun os hos => ?_
    refine ih.bind fun rows hrows => .ret ⟨fun x hx => ?_, fun x hx => ?_⟩
    · rcases List.mem_cons.mp hx with rfl | hx
      · exact ⟨rfl, hid⟩
      · exact hrows.1 x hx
    · rcases List.mem_append.mp hx with hx | hx
      · obtain ⟨hg, ho⟩ := hos x hx
        rw [hg]
        exact ⟨ho, hid⟩
      · exact hrows.2 x hx

theorem within_insertModifierGroups (groups : List ModifierGroupIn) :
    Within purposeOf (Write.Plain purposeOf r) (insertModifierGroups i groups) fun _ => True := by
  refine (within_drawGroups i groups).bind fun rows hrows => ?_
  refine (within_insertRows fun row hrow => ?_).bind fun _ _ => within_insertRows fun row hrow => ?_
  · obtain ⟨g, hg, rfl⟩ := List.mem_map.mp hrow
    obtain ⟨hitem, hgid⟩ := hrows.1 g hg
    refine ⟨?_, ⟨(owner_group hi hgid), rfl⟩⟩
    show purposeOf g.id = .group g.itemId
    rw [hitem, hgid]
  · obtain ⟨o, ho, rfl⟩ := List.mem_map.mp hrow
    obtain ⟨hoid, hgid⟩ := hrows.2 o ho
    exact ⟨hoid, ⟨(owner_option hi hgid hoid), rfl⟩⟩

end

theorem announces_addItem (r : RestaurantId) (c : CategoryId) (fields : ItemFields)
    (tags : List String) (groups : List ModifierGroupIn) :
    Announces purposeOf (Write.Plain purposeOf r) true r (addItem r c fields tags groups) := by
  refine (within_read r).bind fun R hR => ?_
  obtain ⟨rfl, hR⟩ := hR
  refine (within_categoryInScope hR c).bind fun b hb => ?_
  split
  · exact .fail
  · next hin =>
    have hscope := hb (by simpa using hin)
    refine (within_draw (.item R.id)).bind fun i hi => ?_
    have hi : purposeOf i = .item R.id := hi
    refine (within_insertRows fun row hrow => ?_).bind fun _ _ => ?_
    · obtain rfl := List.mem_singleton.mp hrow
      exact ⟨⟨hi, hscope⟩, ⟨(owner_item hi), rfl⟩⟩
    refine (within_setItemTags hi tags).bind fun _ _ => ?_
    refine (within_insertModifierGroups hi groups).bind fun _ _ => ?_
    exact (within_readItem R.id i).bind fun _ _ => announced

theorem within_guardMove {L : Write → Prop} (r : RestaurantId) (c : Option CategoryId) :
    Within purposeOf L (guardMove r c) fun _ => ∀ c', c = some c' → InScope purposeOf r c' := by
  cases c with
  | none => exact .ret nofun
  | some c =>
    refine (within_read r).bind fun R hR => ?_
    obtain ⟨rfl, hR⟩ := hR
    refine (within_categoryInScope hR c).bind fun b hb => ?_
    split
    · next h =>
      refine .ret fun c' hc' => ?_
      cases hc'
      exact hb h
    · exact .fail

theorem announces_updateItem (r : RestaurantId) (i : ItemId) (c : ItemChanges)
    (tags : Option (List String)) (groups : Option (List ModifierGroupIn)) :
    Announces purposeOf (Write.Plain purposeOf r) true r (updateItem r i c tags groups) := by
  unfold updateItem
  split
  · exact .fail
  refine (within_readItem r i).bind fun _ hi => ?_
  refine (within_guardMove r c.categoryId).bind fun _ hmove => ?_
  refine Within.bind (Q := fun _ => True) ?_ fun _ _ => ?_
  · unfold patchItem
    split
    · exact .ret trivial
    · refine (within_updateRow fun _ _ _ => ?_).bind fun _ _ => .ret trivial
      refine ⟨fun c' hc' r' hr' => ?_, ?_⟩
      · rw [hi] at hr'
        cases hr'
        exact hmove c' hc'
      · exact ⟨owner_item hi, rfl⟩
  refine (within_ifSome fun tags _ => within_setItemTags hi tags).bind fun _ _ => ?_
  refine (within_ifSome fun groups _ => ?_).bind fun _ _ => ?_
  · exact (within_deleteItemModifiers hi).bind fun _ _ => within_insertModifierGroups hi groups
  · exact (within_readItem r i).bind fun _ _ => announced

theorem announces_deleteItem (r : RestaurantId) (i : ItemId) :
    Announces purposeOf (Write.Plain purposeOf r) true r (deleteItem r i) := by
  refine Within.bind (Q := fun o => o.isSome → purposeOf i = .item r) (within_select ?_)
    fun o ho => ?_
  · intro db hdb h
    obtain ⟨row, hrow⟩ := Option.isSome_iff_exists.mp h
    obtain ⟨hmem, rfl, rfl⟩ := item_eq_some.mp hrow
    exact (hdb _ hmem).1
  split
  · exact .fail
  · next hne =>
    have hi := ho (Option.isSome_iff_ne_none.mpr hne)
    refine (within_deleteItemModifiers hi).bind fun _ _ => ?_
    refine (within_deleteRows fun db _ k hk => ?_).bind fun _ _ => ?_
    · obtain ⟨t, ht, rfl⟩ := List.mem_map.mp hk
      obtain rfl := List.mem_singleton.mp (mem_tags.mp ht).2
      exact ⟨trivial, ⟨(owner_item hi), rfl⟩⟩
    refine (within_deleteRows fun db _ k hk => ?_).bind fun _ _ => announced
    split at hk
    · cases hk
    · obtain rfl := List.mem_singleton.mp hk
      exact ⟨trivial, ⟨(owner_item hi), rfl⟩⟩

/-! #### New restaurants -/

section

variable {α β : Type} {Q : α → List Write → Prop}

/-- Whatever the statements see, all writes are typed, and local to what is announced. -/
def Locally (purposeOf : ℕ → Purpose) (b : Bool) (p : Session (Option Target)) : Prop :=
  Ensures (Drawn purposeOf) (Db.Typed purposeOf) (Write.Typed purposeOf) p
    (fun t ws => ∀ target ∈ t, target.invalidates = b ∧
      ∀ w ∈ ws, w.Local purposeOf target.restaurant) []

variable {b : Bool}

theorem Announces.locally {p : Session (Option Target)}
    (h : Announces purposeOf (Write.Local purposeOf r) b r p) : Locally purposeOf b p := by
  refine ((h [] (List.forall_mem_nil _)).weaken fun _ hw => hw.1).mono fun t ws ht target htarget => ?_
  obtain ⟨hb, hr⟩ := ht.1 target htarget
  rw [hr]
  exact ⟨hb, ht.2⟩

/-- Reads come first. -/
theorem locally_after_reads {p : Session β} {f : β → Session (Option Target)} {R : β → Prop}
    (hp : Within purposeOf (fun _ => False) p R) (hf : ∀ x, R x → Locally purposeOf b (f x)) :
    Locally purposeOf b (p >>= f) := by
  refine ensures_bind.mpr (((hp [] (List.forall_mem_nil _)).weaken fun _ hw => hw.1).mono ?_)
  rintro x ws ⟨hx, hws⟩
  obtain rfl : ws = [] := List.eq_nil_iff_forall_not_mem.mpr hws
  exact hf x hx

/-- Once its identifier is drawn, a restaurant's rows are its own. -/
theorem locally_draw {P : Purpose} {f : ℕ → Session (Option Target)}
    (hf : ∀ u, Drawn purposeOf P u → Announces purposeOf (Write.Local purposeOf u) b u (f u)) :
    Locally purposeOf b (.draw P f) := fun u hu => (hf u hu).locally

end

theorem ensures_insertRows {rows : List Row} {Q : Unit → List Write → Prop} {ws : List Write}
    {W : Write → Prop} (hrows : ∀ row ∈ rows, W (.insert row)) (h : Q () (ws ++ rows.map .insert)) :
    Ensures (Drawn purposeOf) (Db.Typed purposeOf) W (insertRows rows) Q ws := by
  refine ensures_execute fun db a w _ hq => ?_
  split at hq
  · cases hq
    refine ⟨fun x hx => ?_, h⟩
    obtain ⟨row, hrow, rfl⟩ := List.mem_map.mp hx
    exact hrows row hrow
  · cases hq

/-- The rows of a new branch. -/
theorem ensures_branchRows {id brand : RestaurantId} (hid : purposeOf id = .branch brand)
    (hbrand : purposeOf brand = .brand) {row : RestaurantRow} (hrow : row.id = id)
    (hkind : row.kind = .branch) {m : BranchMetadata} (hm : m.restaurantId = id)
    (hb : m.brandId = brand) {ws : List Write} {W : Write → Prop}
    (hW : ∀ row : Row, row.Typed purposeOf → row.key.owner purposeOf = some id → W (.insert row)) :
    Ensures (Drawn purposeOf) (Db.Typed purposeOf) W
      (do
        insertRows [.restaurant row]
        insertRows [.branchMetadata m]
        return id)
      (fun a ws' => a = id ∧
        ws' = ws ++ [.insert (.restaurant row), .insert (.branchMetadata m)]) ws := by
  refine ensures_bind.mpr (ensures_insertRows (fun x hx => ?_) ?_)
  · obtain rfl := List.mem_singleton.mp hx
    refine hW _ ?_ (congrArg some hrow)
    simp only [Row.Typed, hkind, hrow]
    exact ⟨brand, hid, hbrand⟩
  refine ensures_bind.mpr (ensures_insertRows (fun x hx => ?_) ⟨rfl, ?_⟩)
  · obtain rfl := List.mem_singleton.mp hx
    refine hW _ ?_ (congrArg some hm)
    simp only [Row.Typed, hm, hb]
    exact ⟨hid, hbrand⟩
  · rw [List.append_assoc]
    rfl

/-- They are the restaurant's own, or a branch's of it. -/
theorem within_branchRows {id brand : RestaurantId} (hid : purposeOf id = .branch brand)
    (hbrand : purposeOf brand = .brand) (hr : id = r ∨ purposeOf id = .branch r)
    {row : RestaurantRow} (hrow : row.id = id) (hkind : row.kind = .branch) {m : BranchMetadata}
    (hm : m.restaurantId = id) (hb : m.brandId = brand) :
    Within purposeOf (Write.Local purposeOf r)
      (do
        insertRows [.restaurant row]
        insertRows [.branchMetadata m]
        return id) (· = id) := by
  intro ws hws
  refine (ensures_branchRows hid hbrand hrow hkind hm hb fun _ ht ho =>
    ⟨ht, local_of_owner hr ho⟩).mono ?_
  rintro a ws' ⟨ha, rfl⟩
  refine ⟨ha, fun w hw => ?_⟩
  rcases List.mem_append.mp hw with hw | hw
  · exact hws w hw
  · rcases List.mem_cons.mp hw with rfl | hw
    · exact local_of_owner hr (congrArg some hrow)
    · obtain rfl := List.mem_singleton.mp hw
      exact local_of_owner hr (congrArg some hm)

theorem locally_createBranch (zone : String) (brandId : RestaurantId) (label : String)
    (place : Place) (timezone : Option String) :
    Locally purposeOf true (createBranch zone brandId label place timezone) := by
  refine locally_after_reads (within_read brandId) fun brand hbrand => ?_
  obtain ⟨rfl, hbrand⟩ := hbrand
  split
  · exact trivial
  · next hkind =>
    have hp := (hbrand.brand (not_not.mp hkind)).1
    refine locally_after_reads (within_select (Q := fun _ => True) fun _ _ => trivial)
      fun existing _ => ?_
    split
    · exact nofun
    refine locally_after_reads (within_select (Q := fun _ => True) fun _ _ => trivial)
      fun siblings _ => ?_
    split
    · exact trivial
    refine locally_draw (P := .branch brand.id) fun u hu => ?_
    have hu : purposeOf u = .branch brand.id := hu
    refine (within_branchRows hu hp (.inl rfl) rfl rfl rfl rfl).bind fun id hid => ?_
    subst hid
    exact ((within_setCuisines id brand.cuisines).weaken fun _ h =>
      local_of_owner (.inl rfl) h.1).bind fun _ _ => announced

theorem locally_createRestaurant (zone owner name : String) (place : Place)
    (cuisines : List String) (timezone label : Option String) :
    Locally purposeOf false (createRestaurant zone owner name place cuisines timezone label) := by
  refine locally_after_reads (within_select (Q := fun _ => True) fun _ _ => trivial)
    fun existing _ => ?_
  split
  · exact nofun
  refine locally_draw (P := .brand) fun brand hbrand => ?_
  have hbrand : purposeOf brand = .brand := hbrand
  refine Within.bind (Q := (· = brand)) ?_ fun id hid => ?_
  · refine (within_insertRows fun x hx => ?_).bind fun _ _ => .ret rfl
    obtain rfl := List.mem_singleton.mp hx
    exact ⟨hbrand, local_of_owner (.inl rfl) rfl⟩
  subst hid
  refine ((within_setCuisines id cuisines).weaken fun _ h =>
    local_of_owner (.inl rfl) h.1).bind fun _ _ => ?_
  refine Within.bind (Q := fun id' => purposeOf id' = .branch id) ?_ fun first hfirst => ?_
  · refine (within_draw (.branch id)).bind fun u hu => ?_
    have hu : purposeOf u = .branch id := hu
    refine (within_branchRows hu hbrand (.inr hu) rfl rfl rfl rfl).mono ?_
    rintro _ rfl
    exact hu
  exact ((within_setCuisines first cuisines).weaken fun _ h =>
    local_of_owner (.inr hfirst) h.1).bind fun _ _ => announced

/-- A new restaurant has no cache keys to delete. -/
def Call.invalidates : Call → Bool
  | createRestaurant .. => false
  | _ => true

/-- The restaurant that a mutation is called with. -/
def Call.restaurant : Call → Option RestaurantId
  | createRestaurant .. => none
  | updateRestaurant id _ _ | createBranch id _ _ _ | setBaseItemAvailability id _ _
  | setStatus id _ | addCategory id _ _ | updateCategory id _ _ | deleteCategory id _
  | addItem id _ _ _ _ | updateItem id _ _ _ _ | deleteItem id _ => some id

/-- A mutation of a restaurant's names and cuisines, or a new restaurant. -/
def Call.identity : Call → Bool
  | createRestaurant .. | updateRestaurant .. | createBranch .. => true
  | _ => false

/-- The mutations of a menu and of a place write rows of their restaurant. -/
theorem body_plain (purposeOf : ℕ → Purpose) (zone : String) {call : Call}
    (hcall : call.identity = false) :
    ∃ r, call.restaurant = some r ∧
      Announces purposeOf (Write.Plain purposeOf r) true r (call.body zone) := by
  cases call with
  | createRestaurant | updateRestaurant | createBranch => cases hcall
  | setBaseItemAvailability branch item available =>
    exact ⟨_, rfl, announces_setBaseItemAvailability branch item available⟩
  | setStatus id status => exact ⟨_, rfl, announces_setStatus id status⟩
  | addCategory id name rank => exact ⟨_, rfl, announces_addCategory id name rank⟩
  | updateCategory id category c => exact ⟨_, rfl, announces_updateCategory id category c⟩
  | deleteCategory id category => exact ⟨_, rfl, announces_deleteCategory id category⟩
  | addItem id category fields tags groups =>
    exact ⟨_, rfl, announces_addItem id category fields tags groups⟩
  | updateItem id item c tags groups =>
    exact ⟨_, rfl, announces_updateItem id item c tags groups⟩
  | deleteItem id item => exact ⟨_, rfl, announces_deleteItem id item⟩

/-- **Every mutation is local to the restaurant that it announces.** -/
theorem body_local (zone : String) (call : Call) :
    Locally purposeOf call.invalidates (call.body zone) := by
  cases hcall : call.identity with
  | false =>
    obtain ⟨r, -, hp⟩ := body_plain purposeOf zone hcall
    have hinv : call.invalidates = true := by cases call <;> first | rfl | cases hcall
    rw [hinv]
    exact Announces.locally (hp.weaken fun _ hw => (Write.Edits.own hw.own).isLocal)
  | true =>
    cases call with
    | createRestaurant owner name place cuisines timezone label =>
      exact locally_createRestaurant zone owner name place cuisines timezone label
    | updateRestaurant id c cuisines =>
      exact Announces.locally
        ((announces_updateRestaurant id c cuisines).weaken fun _ => Write.Edits.isLocal)
    | createBranch brand label place timezone =>
      exact locally_createBranch zone brand label place timezone
    | _ => cases hcall

end Catalog
