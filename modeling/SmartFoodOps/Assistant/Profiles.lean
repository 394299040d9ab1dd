/-
Taste profiles, built from what customers have ordered and looked at.

* `TasteRow`, `tasteRows`, `build`, `familiar` — a customer's dishes, with what the index declares
  of them, and the profile that they make;
* `System`, `step` — orders and views are recorded, dishes are indexed anew, and any number of
  passes build the profiles, user by user and statement by statement; one that has failed does not
  go on;
* `Had`, `Reason` — a dish that a customer has ordered, and what speaks for another one;
* `Sound` — a list is personal, and a dish gets ahead of another, for a reason only; and a pass
  brings every profile up to date;
* `sound_of_run` — so it is in every run.
-/
import SmartFoodOps.Assistant.Recommend
import Mathlib.Tactic.NormNum

open Machine Keyed
open Dispatch (OrderId)
open Assistant.Attribution (OrderItem)

namespace Assistant.Profiles

variable {V : Type}

/-! ### The profile of a history -/

/-- `WINDOW`, in seconds. -/
def window : ℕ := 180 * 24 * 60 * 60

/-- One more for each key. -/
def tally (counts : Dict String ℕ) (keys : List String) : Dict String ℕ :=
  keys.foldl (fun d k => d.alter k fun n => n.getD 0 + 1) counts

theorem exists_of_get_tally {counts : Dict String ℕ} {keys : List String} {k : String} {n : ℕ}
    (h : (tally counts keys).get k = some n) : k ∈ keys ∨ ∃ m, counts.get k = some m := by
  by_cases hk : k ∈ keys
  · exact .inl hk
  · have hget := @Dict.get_foldl_alter String ℕ String _ counts k id (fun _ n => n.getD 0 + 1) keys
    have hnil : keys.filter (fun x => id x = k) = [] :=
      List.filter_eq_nil_iff.mpr fun x hx hxk => hk (of_decide_eq_true hxk ▸ hx)
    rw [hnil] at hget
    exact .inr ⟨n, hget.symm.trans h⟩

/-- A dish that was ordered, with the cuisines and the tags that the index declares. -/
structure TasteRow where
  orderId : OrderId
  itemId : String
  restaurantId : String
  cuisines : List String
  tags : List String
  qty : ℤ
  deriving DecidableEq

def rowOf (o : OrderItem) (c : Row ItemFacts V) : TasteRow :=
  ⟨o.orderId, o.itemId, o.restaurantId, c.facts.cuisines, c.facts.tags, o.qty⟩

/-- `taste_rows`: a dish that is no longer indexed contributes nothing. -/
def tasteRows (orders : List OrderItem) (index : Index V) (userId : String) (since : ℕ) :
    List TasteRow :=
  (orders.filter fun o => o.userId = userId ∧ since ≤ o.placedAt).flatMap fun o =>
    (index.items.rows.filter fun c =>
      c.facts.itemId = o.itemId ∧ c.restaurantId = o.restaurantId).map (rowOf o)

/-- `build`, each accumulator of its loop on its own: a row counts once, whatever its quantity. -/
def build (rows : List TasteRow) : Taste where
  cuisines := tally .empty (rows.flatMap TasteRow.cuisines)
  tags := tally .empty (rows.flatMap TasteRow.tags)
  restaurants := tally .empty (rows.map TasteRow.restaurantId)
  ordered := (rows.map TasteRow.itemId).eraseDups
  orders := (rows.map TasteRow.orderId).dedup.length

/-- A row of `menu_views`. -/
structure View where
  viewId : String
  restaurantId : String
  userId : String
  viewedAt : ℕ
  deriving DecidableEq

/-- `viewed_restaurants`: one entry for each view. -/
def viewedRestaurants (views : List View) (userId : String) (since : ℕ) : List String :=
  (views.filter fun v => v.userId = userId ∧ since ≤ v.viewedAt).map View.restaurantId

/-- The views are familiarity only. -/
def familiar (t : Taste) (viewed : List String) : Taste :=
  { t with restaurants := tally t.restaurants viewed }

/-! ### Passes -/

/-- A row of `taste_profiles`. -/
structure Profile where
  taste : Taste
  builtAt : ℕ

/-- A pass between two statements: the users that are left, and what it has read of the first, of
the orders and then of the views. -/
structure Pass where
  now : ℕ
  users : List String
  read : Option (List TasteRow × Option (List String))

abbrev Orders := Table OrderItem (OrderId × String) fun o => (o.orderId, o.itemId)

abbrev Views := Table View String View.viewId

structure System (V : Type) where
  orders : Orders
  views : Views
  index : Index V
  /-- What the index has been before; history only. -/
  past : List (Index V)
  profiles : String → Option Profile
  passes : ℕ → Option Pass

def System.start (index : Index V) : System V :=
  ⟨.empty, .empty, index, [], fun _ => none, fun _ => none⟩

/-- `users_with_history`, in one of the orders that they may come in. -/
def usersWithHistory (orders : List OrderItem) (since : ℕ) : List String :=
  ((orders.filter fun o => since ≤ o.placedAt).map OrderItem.userId).eraseDups

inductive Label (V : Type)
  /-- `record`, and `record_views`. -/
  | order (rows : List OrderItem)
  | view (rows : List View)
  | index (index : Index V)
  /-- A process begins a pass, whatever has become of its last one. -/
  | begin (pid now : ℕ) (users : List String)
  | work (pid : ℕ)

namespace System

variable (s : System V)

def setPass (pid : ℕ) (pass : Option Pass) : System V :=
  { s with passes := Function.update s.passes pid pass }

/-- `save_profile`. -/
def saveProfile (userId : String) (profile : Profile) : System V :=
  { s with profiles := Function.update s.profiles userId (some profile) }

/-- One statement of a pass; the upsert of a profile is committed with it. -/
def advance (pid : ℕ) (p : Pass) : System V :=
  match p.users, p.read with
  | [], _ => s.setPass pid none
  | u :: users, none =>
    let rows := tasteRows s.orders.rows s.index u (p.now - window)
    -- without rows the old profile stays
    s.setPass pid (some (if rows = [] then ⟨p.now, users, none⟩
      else ⟨p.now, p.users, some (rows, none)⟩))
  | u :: _, some (rows, none) =>
    let viewed := viewedRestaurants s.views.rows u (p.now - window)
    s.setPass pid (some ⟨p.now, p.users, some (rows, some viewed)⟩)
  | u :: users, some (rows, some viewed) =>
    (s.saveProfile u ⟨familiar (build rows) viewed, p.now⟩).setPass pid (some ⟨p.now, users, none⟩)

@[simp] theorem setPass_passes {pid : ℕ} {pass : Option Pass} :
    (s.setPass pid pass).passes = Function.update s.passes pid pass := rfl

theorem setPass_self {pid : ℕ} {pass : Option Pass} : (s.setPass pid pass).passes pid = pass := by
  rw [setPass_passes, Function.update_self]

@[simp] theorem saveProfile_profiles {u : String} {p : Profile} :
    (s.saveProfile u p).profiles = Function.update s.profiles u (some p) := rfl

end System

def step (s : System V) : Label V → Option (System V)
  | .order rows => some { s with orders := rows.foldl Table.insertOrIgnore s.orders }
  | .view rows => some { s with views := rows.foldl Table.insertOrIgnore s.views }
  | .index index => some { s with index, past := s.index :: s.past }
  | .begin pid now users =>
    if users.Perm (usersWithHistory s.orders.rows (now - window)) then
      some (s.setPass pid (some ⟨now, users, none⟩))
    else none
  | .work pid => (s.passes pid).map (s.advance pid)

/-! ### Reasons -/

/-- The user has ordered the dish since then, and the index has had it; as in the queries, there is
no upper end. -/
structure Had (s : System V) (u : String) (since : ℕ) (o : OrderItem) (c : Row ItemFacts V) :
    Prop where
  order : o ∈ s.orders
  user : o.userId = u
  time : since ≤ o.placedAt
  indexed : ∃ index ∈ s.index :: s.past, c ∈ index.items
  item : c.facts.itemId = o.itemId
  kitchen : c.restaurantId = o.restaurantId

/-- The user has looked at the restaurant since then. -/
def Looked (s : System V) (u : String) (since : ℕ) (restaurantId : String) : Prop :=
  ∃ v ∈ s.views, v.userId = u ∧ since ≤ v.viewedAt ∧ v.restaurantId = restaurantId

/-- What speaks for a dish: the user has ordered one of its cuisine, with its tag, or from its
kitchen, or has looked at the kitchen. -/
inductive Reason (s : System V) (u : String) (since : ℕ) (item : Attributes) : Prop
  | cuisine {o : OrderItem} {c : Row ItemFacts V} {x : String} (had : Had s u since o c)
      (declared : x ∈ c.facts.cuisines) (fits : x ∈ item.cuisines)
  | tag {o : OrderItem} {c : Row ItemFacts V} {x : String} (had : Had s u since o c)
      (declared : x ∈ c.facts.tags) (fits : x ∈ item.tags)
  | kitchen {o : OrderItem} {c : Row ItemFacts V} (had : Had s u since o c)
      (same : o.restaurantId = item.restaurantId)
  | looked (looked : Looked s u since item.restaurantId)

/-- What has been read of a user's orders. -/
def Read (s : System V) (u : String) (since : ℕ) (rows : List TasteRow) : Prop :=
  ∀ r ∈ rows, ∃ o c, Had s u since o c ∧ r = rowOf o c

/-- The profile is made of orders and views. -/
def Evidenced (s : System V) (u : String) (p : Profile) : Prop :=
  ∃ rows viewed, Read s u (p.builtAt - window) rows ∧
    (∀ r ∈ viewed, Looked s u (p.builtAt - window) r) ∧ p.taste = familiar (build rows) viewed

/-! ### What a profile says -/

section

variable {s : System V} {u : String} {p : Profile} {since : ℕ} {rows : List TasteRow}

theorem read_tasteRows : Read s u since (tasteRows s.orders.rows s.index u since) := by
  intro r hr
  obtain ⟨o, ho, hr⟩ := List.mem_flatMap.mp hr
  obtain ⟨c, hc, rfl⟩ := List.mem_map.mp hr
  obtain ⟨ho, huser⟩ := List.mem_filter.mp ho
  obtain ⟨hc, hitem⟩ := List.mem_filter.mp hc
  obtain ⟨huser, htime⟩ := of_decide_eq_true huser
  obtain ⟨hitem, hkitchen⟩ := of_decide_eq_true hitem
  exact ⟨o, c, ⟨ho, huser, htime, ⟨s.index, List.mem_cons_self, hc⟩, hitem, hkitchen⟩, rfl⟩

theorem looked_viewedRestaurants {r : String}
    (hr : r ∈ viewedRestaurants s.views.rows u since) : Looked s u since r := by
  obtain ⟨v, hv, rfl⟩ := List.mem_map.mp hr
  obtain ⟨hv, huser⟩ := List.mem_filter.mp hv
  obtain ⟨huser, htime⟩ := of_decide_eq_true huser
  exact ⟨v, hv, huser, htime, rfl⟩

/-- Two orders are two rows of different orders. -/
theorem exists_two_orders (h : (build rows).thin = false) :
    ∃ a ∈ rows, ∃ b ∈ rows, a.orderId ≠ b.orderId := by
  have hlen : 2 ≤ (rows.map TasteRow.orderId).dedup.length := by
    have hthin := of_decide_eq_false h
    exact Nat.le_of_not_lt hthin
  have hnodup := List.nodup_dedup (rows.map TasteRow.orderId)
  rcases hd : (rows.map TasteRow.orderId).dedup with _ | ⟨x, _ | ⟨y, l⟩⟩
  · rw [hd] at hlen
    simp at hlen
  · rw [hd] at hlen
    simp at hlen
  · have hx : x ∈ (rows.map TasteRow.orderId).dedup := by rw [hd]; simp
    have hy : y ∈ (rows.map TasteRow.orderId).dedup := by rw [hd]; simp
    obtain ⟨a, ha, rfl⟩ := List.mem_map.mp (List.mem_dedup.mp hx)
    obtain ⟨b, hb, rfl⟩ := List.mem_map.mp (List.mem_dedup.mp hy)
    refine ⟨a, ha, b, hb, fun he => ?_⟩
    rw [hd, he] at hnodup
    simp at hnodup

theorem affinity_eq_zero {counts : Dict String ℕ} {attributes : List String}
    (h : ∀ a ∈ attributes, counts.get a = none) : affinity counts attributes = 0 := by
  have hfold : ∀ l : List String, (∀ a ∈ l, counts.get a = none) →
      (l.map fun a => (counts.get a).getD 0).foldl max 0 = 0 := by
    intro l
    induction l with
    | nil => exact fun _ => rfl
    | cons a l ih =>
      intro hl
      rw [List.map_cons, List.foldl_cons, hl a List.mem_cons_self]
      exact ih fun b hb => hl b (List.mem_cons_of_mem _ hb)
  unfold affinity
  rw [hfold attributes h, Nat.cast_zero, zero_div]

/-- A dish that is not at hand from the counts has only the bonus of a new one. -/
theorem score_le {t : Taste} {item : Attributes}
    (hcuisines : ∀ x ∈ item.cuisines, t.cuisines.get x = none)
    (htags : ∀ x ∈ item.tags, t.tags.get x = none)
    (hkitchen : t.restaurants.get item.restaurantId = none) : score t item ≤ 25 / 100 := by
  have hone : affinity t.restaurants [item.restaurantId] = 0 :=
    affinity_eq_zero fun a ha => by rw [List.mem_singleton.mp ha, hkitchen]
  unfold score
  rw [affinity_eq_zero hcuisines, affinity_eq_zero htags, hone]
  split <;> norm_num

theorem exists_order (hp : Evidenced s u p) {i : String} (hi : i ∈ p.taste.ordered) :
    ∃ o c, Had s u (p.builtAt - window) o c ∧ o.itemId = i := by
  obtain ⟨rows, viewed, hrows, -, htaste⟩ := hp
  rw [htaste] at hi
  obtain ⟨r, hr, rfl⟩ := List.mem_map.mp (List.mem_eraseDups.mp hi)
  obtain ⟨o, c, hhad, rfl⟩ := hrows r hr
  exact ⟨o, c, hhad, rfl⟩

theorem exists_orders (hp : Evidenced s u p) (hthin : p.taste.thin = false) :
    ∃ o c o' c', Had s u (p.builtAt - window) o c ∧ Had s u (p.builtAt - window) o' c' ∧
      o.orderId ≠ o'.orderId := by
  obtain ⟨rows, viewed, hrows, -, htaste⟩ := hp
  rw [htaste] at hthin
  obtain ⟨a, ha, b, hb, hne⟩ := exists_two_orders hthin
  obtain ⟨o, c, ho, rfl⟩ := hrows a ha
  obtain ⟨o', c', ho', rfl⟩ := hrows b hb
  exact ⟨o, c, o', c', ho, ho', hne⟩

/-- **A dish scores for a reason.** -/
theorem reason_of_score (hp : Evidenced s u p) {item : Attributes}
    (h : 25 / 100 < score p.taste item) : Reason s u (p.builtAt - window) item := by
  obtain ⟨rows, viewed, hrows, hviewed, htaste⟩ := hp
  by_contra hno
  refine absurd h (not_lt_of_ge ?_)
  rw [htaste]
  refine score_le ?_ ?_ ?_
  · intro x hx
    refine Option.eq_none_iff_forall_ne_some.mpr fun n hn => ?_
    rcases exists_of_get_tally hn with hmem | ⟨m, hm⟩
    · obtain ⟨r, hr, hxr⟩ := List.mem_flatMap.mp hmem
      obtain ⟨o, c, hhad, rfl⟩ := hrows r hr
      exact hno (.cuisine hhad hxr hx)
    · cases hm
  · intro x hx
    refine Option.eq_none_iff_forall_ne_some.mpr fun n hn => ?_
    rcases exists_of_get_tally hn with hmem | ⟨m, hm⟩
    · obtain ⟨r, hr, hxr⟩ := List.mem_flatMap.mp hmem
      obtain ⟨o, c, hhad, rfl⟩ := hrows r hr
      exact hno (.tag hhad hxr hx)
    · cases hm
  · refine Option.eq_none_iff_forall_ne_some.mpr fun n hn => ?_
    rcases exists_of_get_tally hn with hmem | ⟨m, hm⟩
    · exact hno (.looked (hviewed _ hmem))
    · rcases exists_of_get_tally hm with hmem | ⟨m, hm⟩
      · obtain ⟨r, hr, hkitchen⟩ := List.mem_map.mp hmem
        obtain ⟨o, c, hhad, rfl⟩ := hrows r hr
        exact hno (.kitchen hhad hkitchen)
      · cases hm

end

/-! ### Steps -/

section

variable {s t : System V} {u : String} {p : Profile} {since : ℕ} {rows : List TasteRow}

/-- Orders and views are kept, and the index is remembered. -/
structure Later (s t : System V) : Prop where
  orders : ∀ o ∈ s.orders, o ∈ t.orders
  views : ∀ v ∈ s.views, v ∈ t.views
  indexes : ∀ i ∈ s.index :: s.past, i ∈ t.index :: t.past

theorem Had.mono {o : OrderItem} {c : Row ItemFacts V} (h : Had s u since o c) (hl : Later s t) :
    Had t u since o c :=
  let ⟨index, hi, hc⟩ := h.indexed
  { h with order := hl.orders o h.order, indexed := ⟨index, hl.indexes index hi, hc⟩ }

theorem Read.mono (h : Read s u since rows) (hl : Later s t) : Read t u since rows := by
  intro r hr
  obtain ⟨o, c, hhad, rfl⟩ := h r hr
  exact ⟨o, c, hhad.mono hl, rfl⟩

theorem Looked.mono {r : String} (h : Looked s u since r) (hl : Later s t) : Looked t u since r :=
  let ⟨v, hv, h⟩ := h
  ⟨v, hl.views v hv, h⟩

theorem Evidenced.mono (h : Evidenced s u p) (hl : Later s t) : Evidenced t u p :=
  let ⟨rows, viewed, hrows, hviewed, htaste⟩ := h
  ⟨rows, viewed, hrows.mono hl, fun r hr => (hviewed r hr).mono hl, htaste⟩

theorem mem_foldl_insertOrIgnore {ρ κ : Type} [DecidableEq κ] {key : ρ → κ}
    {table : Table ρ κ key} {new : List ρ} {r : ρ} (h : r ∈ table) :
    r ∈ new.foldl Table.insertOrIgnore table := by
  induction new generalizing table with
  | nil => exact h
  | cons x new ih => exact ih (Table.mem_insertOrIgnore.mpr (.inl h))

/-- Rows that are there are not inserted again. -/
theorem foldl_insertOrIgnore_of_mem {ρ κ : Type} [DecidableEq κ] {key : ρ → κ}
    {table : Table ρ κ key} {new : List ρ} (h : ∀ r ∈ new, r ∈ table) :
    new.foldl Table.insertOrIgnore table = table := by
  induction new with
  | nil => rfl
  | cons x new ih =>
    have hx : table.insertOrIgnore x = table := by
      unfold Table.insertOrIgnore
      rw [Table.mem_iff_find.mp (h x List.mem_cons_self)]
    rw [List.foldl_cons, hx]
    exact ih fun r hr => h r (List.mem_cons_of_mem _ hr)

theorem later_setPass {pid : ℕ} {pass : Option Pass} : Later s (s.setPass pid pass) :=
  ⟨fun _ h => h, fun _ h => h, fun _ h => h⟩

theorem later_saveProfile : Later s (s.saveProfile u p) :=
  ⟨fun _ h => h, fun _ h => h, fun _ h => h⟩

/-- What a pass has read of a user. -/
structure Reads (s : System V) (u : String) (since : ℕ) (rows : List TasteRow)
    (viewed : Option (List String)) : Prop where
  rows : Read s u since rows
  viewed : ∀ v ∈ viewed, ∀ r ∈ v, Looked s u since r

theorem Reads.mono {viewed : Option (List String)} (h : Reads s u since rows viewed)
    (hl : Later s t) : Reads t u since rows viewed :=
  ⟨h.rows.mono hl, fun v hv r hr => (h.viewed v hv r hr).mono hl⟩

/-- What has been read, and what has been saved. -/
structure Inv (s : System V) : Prop where
  read : ∀ pid now u users rows viewed, s.passes pid = some ⟨now, u :: users, some (rows, viewed)⟩ →
    Reads s u (now - window) rows viewed
  saved : ∀ u p, s.profiles u = some p → Evidenced s u p

theorem inv_start {index : Index V} : Inv (System.start index) where
  read _ _ _ _ _ _ h := by cases h
  saved _ _ h := by cases h

/-- Neither the passes nor the profiles have changed. -/
theorem Inv.of_same (hi : Inv s) (hl : Later s t) (hpasses : t.passes = s.passes)
    (hprofiles : t.profiles = s.profiles) : Inv t where
  read pid now u users rows viewed h :=
    (hi.read pid now u users rows viewed (hpasses ▸ h)).mono hl
  saved u p h := (hi.saved u p (hprofiles ▸ h)).mono hl

theorem Inv.setPass (hi : Inv s) {pid : ℕ} {pass : Option Pass}
    (hpass : ∀ now u users rows viewed, pass = some ⟨now, u :: users, some (rows, viewed)⟩ →
      Reads s u (now - window) rows viewed) : Inv (s.setPass pid pass) where
  read pid' now u users rows viewed h := by
    rw [System.setPass_passes] at h
    by_cases hpid : pid' = pid
    · rw [hpid, Function.update_self] at h
      exact (hpass now u users rows viewed h).mono later_setPass
    · rw [Function.update_of_ne hpid] at h
      exact (hi.read pid' now u users rows viewed h).mono later_setPass
  saved u p h := (hi.saved u p h).mono later_setPass

theorem Inv.saveProfile (hi : Inv s) (hp : Evidenced s u p) : Inv (s.saveProfile u p) where
  read pid now u' users rows viewed h :=
    (hi.read pid now u' users rows viewed h).mono later_saveProfile
  saved u' p' h := by
    rw [System.saveProfile_profiles] at h
    by_cases hu : u' = u
    · subst hu
      rw [Function.update_self] at h
      obtain rfl := Option.some.inj h
      exact hp.mono later_saveProfile
    · rw [Function.update_of_ne hu] at h
      exact (hi.saved u' p' h).mono later_saveProfile

theorem inv_advance (hi : Inv s) {pid : ℕ} {pass : Pass} (hpass : s.passes pid = some pass) :
    Inv (s.advance pid pass) := by
  obtain ⟨now, users, read⟩ := pass
  rcases users with _ | ⟨u, users⟩
  · exact Inv.setPass hi fun _ _ _ _ _ h => by cases h
  rcases read with _ | ⟨rows, _ | viewed⟩
  · refine Inv.setPass hi fun now' u' users' rows viewed h => ?_
    split at h
    · cases h
    · cases h
      exact ⟨read_tasteRows, nofun⟩
  · refine Inv.setPass hi fun now' u' users' rows viewed h => ?_
    cases h
    refine ⟨(hi.read pid now u users _ none hpass).rows, fun v hv r hr => ?_⟩
    cases hv
    exact looked_viewedRestaurants hr
  · have hread := hi.read pid now u users rows (some viewed) hpass
    refine Inv.setPass (hi.saveProfile ?_) fun _ _ _ _ _ h => by cases h
    exact ⟨rows, viewed, hread.rows, hread.viewed viewed rfl, rfl⟩

theorem inv_step (hi : Inv s) {l : Label V} (hs : step s l = some t) : Inv t := by
  cases l with
  | order new =>
    obtain rfl := Option.some.inj hs
    exact hi.of_same ⟨fun _ h => mem_foldl_insertOrIgnore h, fun _ h => h, fun _ h => h⟩ rfl rfl
  | view new =>
    obtain rfl := Option.some.inj hs
    exact hi.of_same ⟨fun _ h => h, fun _ h => mem_foldl_insertOrIgnore h, fun _ h => h⟩ rfl rfl
  | index index =>
    obtain rfl := Option.some.inj hs
    exact hi.of_same ⟨fun _ h => h, fun _ h => h, fun _ h => List.mem_cons_of_mem _ h⟩ rfl rfl
  | begin pid now users =>
    simp only [step] at hs
    split at hs
    · obtain rfl := Option.some.inj hs
      exact hi.setPass fun _ _ _ _ _ h => by cases h
    · cases hs
  | work pid =>
    obtain ⟨pass, hpass, rfl⟩ := Option.map_eq_some_iff.mp hs
    exact inv_advance hi hpass

end

/-! ### A pass that nobody disturbs -/

section

variable {s : System V} {u : String} {now : ℕ} {users : List String}

/-- What a pass makes of a user's profile; without rows it stays. -/
def System.rebuilt (s : System V) (now : ℕ) (u : String) : Option Profile :=
  let rows := tasteRows s.orders.rows s.index u (now - window)
  if rows = [] then s.profiles u
  else some ⟨familiar (build rows) (viewedRestaurants s.views.rows u (now - window)), now⟩

/-- The pass has built the first of its users. -/
def System.next (s : System V) (now : ℕ) (u : String) (users : List String) : System V :=
  { s with
    profiles := Function.update s.profiles u (s.rebuilt now u)
    passes := Function.update s.passes 0 (some ⟨now, users, none⟩) }

theorem next_passes : (s.next now u users).passes 0 = some ⟨now, users, none⟩ :=
  Function.update_self 0 _ s.passes

theorem run_next (h : s.passes 0 = some ⟨now, u :: users, none⟩) :
    ∃ ls, Run step Always s ls (s.next now u users) := by
  have hwork : ∀ {read}, step (s.setPass 0 (some ⟨now, u :: users, read⟩)) (.work 0) =
      some ((s.setPass 0 (some ⟨now, u :: users, read⟩)).advance 0 ⟨now, u :: users, read⟩) := by
    intro read
    simp only [step, System.setPass_self, Option.map_some]
  by_cases hrows : tasteRows s.orders.rows s.index u (now - window) = []
  · refine ⟨[.work 0], .cons trivial ?_ .nil⟩
    simp only [step, h, Option.map_some, System.advance, System.next, System.rebuilt, hrows, if_pos,
      System.setPass, Function.update_eq_self]
  · refine ⟨[.work 0, .work 0, .work 0], .cons trivial (t := s.setPass 0 (some ⟨now, u :: users,
      some (tasteRows s.orders.rows s.index u (now - window), none)⟩)) ?_
        (.cons trivial hwork (.cons trivial (t := s.next now u users) ?_ .nil))⟩
    · simp only [step, h, Option.map_some, System.advance, if_neg hrows]
    · simp only [step, System.setPass, Function.update_self, Option.map_some, System.advance,
        System.saveProfile, System.next, System.rebuilt, if_neg hrows, Function.update_idem]

/-- What is left to build does not depend on what has been built. -/
theorem rebuilt_next {u' : String} : (s.next now u users).rebuilt now u' = s.rebuilt now u' := by
  by_cases hrows : tasteRows s.orders.rows s.index u' (now - window) = []
  · have hold : s.rebuilt now u' = s.profiles u' := if_pos hrows
    have hnew : (s.next now u users).rebuilt now u' = (s.next now u users).profiles u' :=
      if_pos hrows
    rw [hnew, hold]
    by_cases hu : u' = u
    · subst hu
      exact (Function.update_self ..).trans hold
    · exact Function.update_of_ne hu ..
  · exact (if_neg hrows).trans (if_neg hrows).symm

theorem run_users (h : s.passes 0 = some ⟨now, users, none⟩) :
    ∃ ls t, Run step Always s ls t ∧ t.orders = s.orders ∧ t.views = s.views ∧
      t.index = s.index ∧
      ∀ u, t.profiles u = if u ∈ users then s.rebuilt now u else s.profiles u := by
  induction users generalizing s with
  | nil => exact ⟨[], s, .nil, rfl, rfl, rfl, fun u => (if_neg List.not_mem_nil).symm⟩
  | cons u users ih =>
    obtain ⟨ls, hrun⟩ := run_next h
    obtain ⟨ls', t, hrun', ho, hv, hi, hp⟩ := ih next_passes
    refine ⟨ls ++ ls', t, hrun.append hrun', ho, hv, hi, fun u' => ?_⟩
    rw [hp u', rebuilt_next]
    by_cases hmem : u' ∈ users
    · rw [if_pos hmem, if_pos (List.mem_cons_of_mem u hmem)]
    · rw [if_neg hmem]
      by_cases hu : u' = u
      · subst hu
        rw [if_pos List.mem_cons_self]
        exact Function.update_self ..
      · rw [if_neg fun h => (List.mem_cons.mp h).elim hu hmem]
        exact Function.update_of_ne hu ..

/-- Whoever has rows has a history. -/
theorem mem_usersWithHistory {since : ℕ}
    (h : tasteRows s.orders.rows s.index u since ≠ []) :
    u ∈ usersWithHistory s.orders.rows since := by
  obtain ⟨r, hr⟩ := List.exists_mem_of_ne_nil _ h
  obtain ⟨o, c, hhad, -⟩ := read_tasteRows r hr
  have hmem : o ∈ s.orders.rows.filter fun o => since ≤ o.placedAt :=
    List.mem_filter.mpr ⟨hhad.order, decide_eq_true hhad.time⟩
  exact List.mem_eraseDups.mpr (List.mem_map.mpr ⟨o, hmem, hhad.user⟩)

theorem run_pass (s : System V) (now : ℕ) :
    ∃ ls t, Run step Always s ls t ∧ t.orders = s.orders ∧ t.views = s.views ∧
      t.index = s.index ∧ ∀ u, t.profiles u = s.rebuilt now u ∧ t.rebuilt now u = t.profiles u := by
  have hbegin : step s (.begin 0 now (usersWithHistory s.orders.rows (now - window))) =
      some (s.setPass 0 (some ⟨now, usersWithHistory s.orders.rows (now - window), none⟩)) :=
    if_pos (.refl _)
  obtain ⟨ls, t, hrun, ho, hv, hi, hp⟩ := run_users (System.setPass_self s)
  have hbuilt : ∀ u, t.profiles u = s.rebuilt now u := by
    intro u
    refine (hp u).trans ?_
    split
    · rfl
    · next hno =>
      have hrows : tasteRows s.orders.rows s.index u (now - window) = [] :=
        not_imp_comm.mp mem_usersWithHistory hno
      exact (if_pos hrows).symm
  refine ⟨_, t, .cons trivial hbegin hrun, ho, hv, hi, fun u => ⟨hbuilt u, ?_⟩⟩
  -- the tables are the same, and so is what a pass reads of them
  unfold System.rebuilt
  rw [ho, hv, hi, hbuilt u]
  unfold System.rebuilt
  simp only [System.setPass]
  split <;> rfl

end

/-! ### Every run -/

structure Sound (s : System V) : Prop where
  /-- A list is personal for somebody with two orders in the window, of dishes that were indexed. -/
  personal : ∀ hourOf ask limit u, (forUser hourOf s.orders.rows s.index ask
      ((s.profiles u).map Profile.taste) limit).1 = .taste →
    ∃ p, s.profiles u = some p ∧ ∃ o c o' c', Had s u (p.builtAt - window) o c ∧
      Had s u (p.builtAt - window) o' c' ∧ o.orderId ≠ o'.orderId
  /-- A dish that scores more than any new dish does has something that speaks for it. -/
  reasoned : ∀ u p, s.profiles u = some p → ∀ item, 25 / 100 < score p.taste item →
    Reason s u (p.builtAt - window) item
  /-- A dish that is not new to the user was ordered. -/
  ordered : ∀ u p, s.profiles u = some p → ∀ i ∈ p.taste.ordered,
    ∃ o c, Had s u (p.builtAt - window) o c ∧ o.itemId = i
  /-- What is delivered again changes nothing. -/
  replayed : (∀ rows, (∀ o ∈ rows, o ∈ s.orders) → step s (.order rows) = some s) ∧
    ∀ rows, (∀ v ∈ rows, v ∈ s.views) → step s (.view rows) = some s
  /-- One pass brings every profile up to date, and keeps those that have no rows; another one is
  not needed. -/
  rebuilds : ∀ now, ∃ ls t, Run step Always s ls t ∧ t.orders = s.orders ∧ t.views = s.views ∧
    t.index = s.index ∧ ∀ u, t.profiles u = s.rebuilt now u ∧ t.rebuilt now u = t.profiles u

section

variable {s : System V} {ls : List (Label V)} {index : Index V}

theorem thin_of_personal {hourOf : ℕ → ℕ} {orders : List OrderItem} {ask : Ask}
    {profile : Option Taste} {limit : ℕ}
    (h : (forUser hourOf orders index ask profile limit).1 = .taste) :
    ∃ t, profile = some t ∧ t.thin = false := by
  unfold forUser at h
  rcases profile with _ | t
  · cases h
  · refine ⟨t, rfl, Bool.eq_false_iff.mpr fun hthin => ?_⟩
    dsimp only at h
    rw [if_pos (.inl hthin)] at h
    cases h

/-- **Whatever is recommended to a customer has a reason**: in every run. -/
theorem profiles_of_run (hrun : Run step Always (System.start index) ls s) : Sound s := by
  have hi : Inv s := hrun.invariant inv_start fun _ _ _ hi _ hs => inv_step hi hs
  refine ⟨fun hourOf ask limit u h => ?_, fun u p hp item h => reason_of_score (hi.saved u p hp) h,
    fun u p hp i h => exists_order (hi.saved u p hp) h,
    ⟨fun rows h => ?_, fun rows h => ?_⟩, run_pass s⟩
  · obtain ⟨t, ht, hthin⟩ := thin_of_personal h
    obtain ⟨p, hp, rfl⟩ := Option.map_eq_some_iff.mp ht
    exact ⟨p, hp, exists_orders (hi.saved u p hp) hthin⟩
  · simp only [step, foldl_insertOrIgnore_of_mem h]
  · simp only [step, foldl_insertOrIgnore_of_mem h]

end

/-! ### An index that is lost -/

def biryani : Index Unit where
  restaurants := .empty
  items := Table.empty.put ⟨"r1:d1", "r1", "Biryani", ⟨"d1", "Oslo", none, ["pakistani"], "Mains",
    ["spicy"], "Biryani", 1900, true, "open"⟩, ()⟩

/-- An order comes twice, the index is lost and views are recorded in the middle of a pass, and the
next pass keeps what it finds. -/
def lostIndex : List (Label Unit) :=
  [.order [⟨"o1", "d1", "r1", "u1", 1, 0⟩],
    .order [⟨"o1", "d1", "r1", "u1", 1, 0⟩, ⟨"o2", "d1", "r1", "u1", 4, 5⟩],
    .begin 0 10 ["u1"], .work 0, .index ⟨.empty, .empty⟩, .view [⟨"v1", "r2", "u1", 6⟩], .work 0,
    .view [⟨"v2", "r2", "u1", 7⟩], .work 0, .work 0, .begin 1 20 ["u1"], .work 1, .work 1]

theorem profiles_of_run_lostIndex : ∃ s, Run step Always (System.start biryani) lostIndex s ∧
    ((s.profiles "u1").map fun p => (p.builtAt, p.taste.orders, p.taste.cuisines.get "pakistani",
      p.taste.restaurants.get "r2")) = some (10, 2, some 2, some 1) ∧ Sound s := by
  obtain ⟨s, hrun, hp⟩ : ∃ s, Run step Always (System.start biryani) lostIndex s ∧
      decide (((s.profiles "u1").map fun p => (p.builtAt, p.taste.orders,
        p.taste.cuisines.get "pakistani", p.taste.restaurants.get "r2")) =
          some (10, 2, some 2, some 1)) = true :=
    exists_run_of_execOk (by decide +kernel)
  exact ⟨s, hrun, of_decide_eq_true hp, profiles_of_run hrun⟩

end Assistant.Profiles
